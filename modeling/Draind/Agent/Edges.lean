import Draind.Agent.MprisMonitor

namespace Draind.Agent

-- m_inhibiting says whether a player is known to play.
def Settled (m : MprisMonitor) : Prop :=
  m.inhibiting = true ↔ m.playing ≠ ∅

-- The callbacks in turn, from one value of m_inhibiting to another.
inductive Alternates : Bool → List Edge → Bool → Prop
  | nil (inhibiting : Bool) : Alternates inhibiting [] inhibiting
  | inhibit {edges : List Edge} {last : Bool} (h : Alternates true edges last) :
      Alternates false (.inhibit :: edges) last
  | uninhibit {edges : List Edge} {last : Bool} (h : Alternates false edges last) :
      Alternates true (.uninhibit :: edges) last

theorem Alternates.append {first second : List Edge} {a b c : Bool} (h : Alternates a first b)
    (h' : Alternates b second c) : Alternates a (first ++ second) c := by
  induction h with
  | nil => exact h'
  | inhibit _ ih => exact .inhibit (ih h')
  | uninhibit _ ih => exact .uninhibit (ih h')

theorem Alternates.eq_of_nil {a b : Bool} (h : Alternates a [] b) : a = b := by
  cases h
  rfl

-- What every handler of the monitor does to m_inhibiting and with the callbacks.
structure Turns (m : MprisMonitor) (r : MprisMonitor × List Edge) : Prop where
  settled : Settled r.1
  alternates : Alternates m.inhibiting r.2 r.1.inhibiting

theorem Turns.none {m : MprisMonitor} (h : Settled m) : Turns m (m, []) :=
  ⟨h, .nil _⟩

theorem setPlayerPlaying_turns (unique : Bytes) (isPlaying : Bool) (m : MprisMonitor) :
    Turns m (setPlayerPlaying unique isPlaying m) := by
  simp only [setPlayerPlaying]
  generalize (if isPlaying = true then insert unique m.playing else m.playing.erase unique) = playing
  split
  · rename_i hp
    refine ⟨by simpa [Settled] using hp.1, ?_⟩
    rw [Bool.eq_false_of_not_eq_true hp.2]
    exact .inhibit (.nil _)
  rename_i hon
  split
  · rename_i hp
    refine ⟨by simpa [Settled] using hp.1, ?_⟩
    rw [hp.2]
    exact .uninhibit (.nil _)
  · rename_i hoff
    refine ⟨?_, .nil _⟩
    unfold Settled
    cases hi : m.inhibiting <;> simp_all

theorem queryPlaybackStatus_turns (query : Bytes → Option Bytes) (unique : Bytes) (m : MprisMonitor)
    (h : Settled m) : Turns m (queryPlaybackStatus query unique m) := by
  unfold queryPlaybackStatus
  split
  · exact .none h
  · exact setPlayerPlaying_turns unique _ m

-- The maps do not matter for it.
theorem addPlayer_turns (query : Bytes → Option Bytes) (wellKnown unique : Bytes) (m : MprisMonitor)
    (h : Settled m) : Turns m (addPlayer query wellKnown unique m) := by
  have ht := queryPlaybackStatus_turns query unique
    { m with
      wkToUnique := m.wkToUnique.insert wellKnown unique
      uniqueToWk := m.uniqueToWk.insert unique wellKnown } h
  exact ⟨ht.settled, ht.alternates⟩

theorem removePlayer_turns (wellKnown : Bytes) (m : MprisMonitor) (h : Settled m) :
    Turns m (removePlayer wellKnown m) := by
  unfold removePlayer
  split
  · exact .none h
  · rename_i unique _
    have ht := setPlayerPlaying_turns unique false
      { m with
        wkToUnique := m.wkToUnique.erase wellKnown
        uniqueToWk := m.uniqueToWk.erase unique }
    exact ⟨ht.settled, ht.alternates⟩

theorem scanStatus_turns (unique : Bytes) (changed : List (Bytes × Variant)) (m : MprisMonitor)
    (h : Settled m) : Turns m (scanStatus unique changed m) := by
  induction changed generalizing m with
  | nil => exact .none h
  | cons entry rest ih =>
      obtain ⟨key, value⟩ := entry
      rw [scanStatus.eq_def]
      dsimp only
      split
      · cases value with
        | other => exact .none h
        | string s =>
            have hfirst := setPlayerPlaying_turns unique (s = bytes "Playing") m
            have hrest := ih (setPlayerPlaying unique (s = bytes "Playing") m).1 hfirst.settled
            exact ⟨hrest.settled, hfirst.alternates.append hrest.alternates⟩
      · exact ih m h

theorem handleSignal_turns (query : Bytes → Option Bytes) (m : MprisMonitor) (signal : Signal)
    (h : Settled m) : Turns m (handleSignal query m signal) := by
  cases signal with
  | nameOwnerChanged name oldOwner newOwner =>
      unfold handleSignal handleNameOwnerChanged
      dsimp only
      split
      · exact .none h
      split
      · exact addPlayer_turns query name newOwner m h
      · exact removePlayer_turns name m h
  | propertiesChanged sender interface changed =>
      unfold handleSignal handlePropertiesChanged
      dsimp only
      split
      · exact .none h
      split
      · exact .none h
      · exact scanStatus_turns sender changed m h

theorem scanExistingPlayers_settled (query owner : Bytes → Option Bytes) (names : List Bytes)
    (m : MprisMonitor) (h : Settled m) : Settled (scanExistingPlayers query owner names m) := by
  unfold scanExistingPlayers
  induction names generalizing m with
  | nil => exact h
  | cons name rest ih =>
      refine ih _ ?_
      dsimp only
      split
      · split
        · exact h
        · exact (addPlayer_turns query name _ m h).settled
      · exact h

end Draind.Agent
