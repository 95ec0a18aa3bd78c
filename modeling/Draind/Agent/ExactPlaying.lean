import Draind.Agent.MprisMonitor
import Draind.Lib.Run

namespace Draind.Agent

-- What the bus knows: who owns each name, and the last PlaybackStatus of each
-- connection. An empty owner stands for none on the bus and owns no name here.
structure Bus where
  owner : AList fun _ : Bytes => Bytes
  status : Bytes → Bytes
  named : ∀ name, owner.lookup name ≠ some []

namespace Bus

-- The unique name owns a name of a player.
def Owns (b : Bus) (unique : Bytes) : Prop :=
  ∃ name ∈ b.owner.keys, isMprisName name ∧ b.owner.lookup name = some unique

instance (b : Bus) (unique : Bytes) : Decidable (b.Owns unique) :=
  inferInstanceAs (Decidable (∃ name ∈ b.owner.keys, _))

def setOwner (b : Bus) (name newOwner : Bytes) : Bus where
  owner := if newOwner = [] then b.owner.erase name else b.owner.insert name newOwner
  status := b.status
  named other := by
    by_cases ho : other = name
    · subst ho
      split <;> simp_all
    · split <;> simp [ho, b.named other]

def setStatus (b : Bus) (unique status : Bytes) : Bus :=
  { b with status := Function.update b.status unique status }

-- The query of add_player succeeds and returns the status of the moment.
def query (b : Bus) (unique : Bytes) : Option Bytes :=
  some (b.status unique)

end Bus

-- m_wk_to_unique agrees with the bus on the names of players.
def TracksNames (b : Bus) (m : MprisMonitor) : Prop :=
  ∀ name, isMprisName name → m.wkToUnique.lookup name = b.owner.lookup name

-- m_playing is the set of the players that play, and m_unique_to_wk has a key for
-- exactly the players.
def ExactPlaying (b : Bus) (m : MprisMonitor) : Prop :=
  ∀ unique, (unique ∈ m.playing ↔ b.Owns unique ∧ b.status unique = bytes "Playing") ∧
    (unique ∈ m.uniqueToWk ↔ b.Owns unique)

-- A status that changes unseen is one of a connection that is no player then.
inductive BusEvent where
  | signal (signal : Signal)
  | unseen (unique status : Bytes)

namespace BusEvent

-- The dictionary of a PropertiesChanged has each key once.
def Consistent (b : Bus) : BusEvent → Prop
  | signal (.nameOwnerChanged name oldOwner newOwner) =>
      (b.owner.lookup name).getD [] = oldOwner ∧ newOwner ≠ oldOwner
  | signal (.propertiesChanged _ _ changed) => (changed.map Prod.fst).Nodup
  | unseen unique _ => ¬b.Owns unique

instance (b : Bus) : (e : BusEvent) → Decidable (e.Consistent b)
  | signal (.nameOwnerChanged ..) => inferInstanceAs (Decidable (_ ∧ _))
  | signal (.propertiesChanged ..) => inferInstanceAs (Decidable (List.Nodup _))
  | unseen .. => inferInstanceAs (Decidable (¬_))

def apply (b : Bus) : BusEvent → Bus
  | signal (.nameOwnerChanged name _ newOwner) => b.setOwner name newOwner
  | signal (.propertiesChanged sender interface changed) =>
      match changed.lookup (bytes "PlaybackStatus") with
      | some (.string status) => if interface = playerInterface then b.setStatus sender status else b
      | _ => b
  | unseen unique status => b.setStatus unique status

end BusEvent

structure Observed where
  bus : Bus
  monitor : MprisMonitor

namespace Observed

-- The agent after init on a bus that lists the names.
def init (b : Bus) (names : List Bytes) : Observed :=
  ⟨b, scanExistingPlayers b.query b.owner.lookup names .empty⟩

-- An event the bus cannot produce does not happen.
def step (s : Observed) (e : BusEvent) : Observed :=
  if e.Consistent s.bus then
    ⟨e.apply s.bus,
      match e with
      | .signal signal => (handleSignal (e.apply s.bus).query s.monitor signal).1
      | .unseen .. => s.monitor⟩
  else s

-- A player's name that is released was the only one of its owner, and an owner
-- that is replaced keeps another.
def OwnershipKept (s : Observed) : BusEvent → Prop
  | .signal (.nameOwnerChanged name oldOwner newOwner) =>
      BusEvent.Consistent s.bus (.signal (.nameOwnerChanged name oldOwner newOwner)) →
        isMprisName name → oldOwner ≠ [] →
          ((s.bus.setOwner name []).Owns oldOwner ↔ newOwner ≠ [])
  | _ => True

end Observed

namespace Bus

variable (b : Bus)

theorem owns_iff (unique : Bytes) :
    b.Owns unique ↔ ∃ name, isMprisName name ∧ b.owner.lookup name = some unique := by
  constructor
  · rintro ⟨name, _, h⟩
    exact ⟨name, h⟩
  · rintro ⟨name, hn, ho⟩
    exact ⟨name, AList.mem_keys.mp (AList.lookup_isSome.mp (by simp [ho])), hn, ho⟩

@[simp] theorem setOwner_status (name newOwner : Bytes) : (b.setOwner name newOwner).status = b.status := rfl

@[simp] theorem setStatus_owner (unique status : Bytes) : (b.setStatus unique status).owner = b.owner := rfl

@[simp] theorem setStatus_owns (unique status other : Bytes) :
    (b.setStatus unique status).Owns other ↔ b.Owns other := Iff.rfl

theorem lookup_setOwner (name newOwner other : Bytes) :
    (b.setOwner name newOwner).owner.lookup other =
      if other = name then if newOwner = [] then none else some newOwner
      else b.owner.lookup other := by
  unfold setOwner
  by_cases ho : other = name
  · subst ho
    split <;> simp_all
  · split <;> simp [ho]

theorem lookup_eq_some_of_getD {name owner : Bytes} (h : (b.owner.lookup name).getD [] = owner)
    (ho : owner ≠ []) : b.owner.lookup name = some owner := by
  cases hl : b.owner.lookup name with
  | none => simp [hl, ho.symm] at h
  | some other => simpa [hl] using h

theorem owns_congr {b b' : Bus} (h : ∀ name, isMprisName name → b.owner.lookup name = b'.owner.lookup name)
    (unique : Bytes) : b.Owns unique ↔ b'.Owns unique := by
  simp only [owns_iff]
  exact exists_congr fun name => and_congr_right fun hn => by rw [h name hn]

-- The owners of players are that of one name and those of the others.
theorem owns_split (name unique : Bytes) (hn : isMprisName name) :
    b.Owns unique ↔ b.owner.lookup name = some unique ∨ (b.setOwner name []).Owns unique := by
  simp only [owns_iff, lookup_setOwner]
  constructor
  · rintro ⟨other, ho, h⟩
    by_cases he : other = name
    · exact .inl (he ▸ h)
    · exact .inr ⟨other, ho, by simpa [he] using h⟩
  · rintro (h | ⟨other, ho, h⟩)
    · exact ⟨name, hn, h⟩
    · have he : other ≠ name := by
        rintro rfl
        simp at h
      exact ⟨other, ho, by simpa [he] using h⟩

theorem owns_setOwner (name newOwner unique : Bytes) (hn : isMprisName name) (ho : newOwner ≠ []) :
    (b.setOwner name newOwner).Owns unique ↔ unique = newOwner ∨ (b.setOwner name []).Owns unique := by
  rw [owns_split _ name unique hn, lookup_setOwner]
  have hr : ((b.setOwner name newOwner).setOwner name []).Owns unique ↔
      (b.setOwner name []).Owns unique := by
    simp only [owns_iff, lookup_setOwner]
    refine exists_congr fun other => and_congr_right fun _ => ?_
    split <;> rfl
  rw [hr]
  simp [ho, eq_comm]

end Bus

section Players

variable {b : Bus} {m : MprisMonitor} (name unique : Bytes)

theorem addPlayer_lookup (other : Bytes) :
    (addPlayer b.query name unique m).1.wkToUnique.lookup other =
      if other = name then some unique else m.wkToUnique.lookup other := by
  by_cases ho : other = name
  · subst ho
    simp [addPlayer, queryPlaybackStatus, Bus.query]
  · simp [addPlayer, queryPlaybackStatus, Bus.query, ho]

theorem removePlayer_lookup (other : Bytes) :
    (removePlayer name m).1.wkToUnique.lookup other =
      if other = name then none else m.wkToUnique.lookup other := by
  unfold removePlayer
  by_cases ho : other = name
  · subst ho
    split <;> simp_all
  · split <;> simp [ho]

theorem ExactPlaying.congr {b' : Bus} (h : ExactPlaying b m) (hs : b.status = b'.status)
    (ho : ∀ name, isMprisName name → b.owner.lookup name = b'.owner.lookup name) : ExactPlaying b' m := by
  intro unique
  rw [← Bus.owns_congr ho unique, ← hs]
  exact h unique

theorem TracksNames.setOwner (newOwner : Bytes) {m' : MprisMonitor} (h : TracksNames b m)
    (hm : ∀ other, m'.wkToUnique.lookup other =
      if other = name then if newOwner = [] then none else some newOwner
      else m.wkToUnique.lookup other) : TracksNames (b.setOwner name newOwner) m' := by
  intro other ho
  rw [hm, Bus.lookup_setOwner, h other ho]

theorem addPlayer_exact_iff (h : ExactPlaying b m) (hn : isMprisName name) (hu : unique ≠ []) :
    ExactPlaying (b.setOwner name unique) (addPlayer b.query name unique m).1 ↔
      ∀ old, b.owner.lookup name = some old → old = unique ∨ (b.setOwner name []).Owns old := by
  have hkey : ∀ other, other ∈ (addPlayer b.query name unique m).1.uniqueToWk ↔
      other = unique ∨ b.Owns other := by
    intro other
    simp [addPlayer, queryPlaybackStatus, Bus.query, (h other).2]
  have hplay : ∀ other, other ∈ (addPlayer b.query name unique m).1.playing ↔
      (other = unique ∨ b.Owns other) ∧ b.status other = bytes "Playing" := by
    intro other
    by_cases ho : other = unique
    · subst ho
      simp [addPlayer, queryPlaybackStatus, Bus.query]
    · simp [addPlayer, queryPlaybackStatus, Bus.query, ho, (h other).1]
  have hold : ∀ other, (other = unique ∨ b.Owns other ↔ (b.setOwner name unique).Owns other) ↔
      (b.owner.lookup name = some other → other = unique ∨ (b.setOwner name []).Owns other) := by
    intro other
    rw [b.owns_setOwner name unique other hn hu, b.owns_split name other hn]
    tauto
  constructor
  · intro ht old ho
    exact (hold old).mp ((hkey old).symm.trans (ht old).2) ho
  · intro hkeep other
    have howns := (hold other).mpr (hkeep other)
    rw [hplay, hkey, howns]
    exact ⟨Iff.rfl, Iff.rfl⟩

theorem removePlayer_exact_iff (h : ExactPlaying b m) (ht : TracksNames b m) (hn : isMprisName name)
    (ho : b.owner.lookup name = some unique) :
    ExactPlaying (b.setOwner name []) (removePlayer name m).1 ↔ ¬(b.setOwner name []).Owns unique := by
  have hremove : removePlayer name m = setPlayerPlaying unique false
      { m with
        wkToUnique := m.wkToUnique.erase name
        uniqueToWk := m.uniqueToWk.erase unique } := by
    simp [removePlayer, ht name hn, ho]
  have hkey : ∀ other, other ∈ (removePlayer name m).1.uniqueToWk ↔ other ≠ unique ∧ b.Owns other := by
    intro other
    simp [hremove, (h other).2]
  have hplay : ∀ other, other ∈ (removePlayer name m).1.playing ↔
      (other ≠ unique ∧ b.Owns other) ∧ b.status other = bytes "Playing" := by
    intro other
    by_cases he : other = unique
    · subst he
      simp [hremove]
    · simp [hremove, he, (h other).1]
  constructor
  · intro hx hrem
    exact ((hkey unique).mp ((hx unique).2.mpr hrem)).1 rfl
  · intro hrem other
    have howns : other ≠ unique ∧ b.Owns other ↔ (b.setOwner name []).Owns other := by
      by_cases he : other = unique
      · subst he
        simp [hrem]
      · rw [b.owns_split name other hn, ho]
        simp [he, Ne.symm he]
    rw [hplay, hkey, howns]
    exact ⟨Iff.rfl, Iff.rfl⟩

theorem ExactPlaying.setStatus (status : Bytes) (h : ExactPlaying b m) (hu : ¬b.Owns unique) :
    ExactPlaying (b.setStatus unique status) m := by
  intro other
  refine ⟨?_, (h other).2⟩
  rw [(h other).1]
  refine and_congr_right fun ho => ?_
  have he : other ≠ unique := fun he => hu (he ▸ ho)
  simp [Bus.setStatus, he]

theorem ExactPlaying.setPlayerPlaying (status : Bytes) (h : ExactPlaying b m) (hu : b.Owns unique) :
    ExactPlaying (b.setStatus unique status)
      (Agent.setPlayerPlaying unique (status = bytes "Playing") m).1 := by
  intro other
  rw [mem_setPlayerPlaying, setPlayerPlaying_uniqueToWk, Bus.setStatus_owns]
  refine ⟨?_, (h other).2⟩
  by_cases he : other = unique
  · subst he
    simp [Bus.setStatus, hu]
  · simp [Bus.setStatus, he, (h other).1]

theorem ExactPlaying.handlePropertiesChanged (interface : Bytes) (changed : List (Bytes × Variant))
    (h : ExactPlaying b m) (hc : (changed.map Prod.fst).Nodup) :
    ExactPlaying ((BusEvent.signal (.propertiesChanged unique interface changed)).apply b)
      (Agent.handlePropertiesChanged unique interface changed m).1 := by
  simp only [BusEvent.apply, Agent.handlePropertiesChanged, (h unique).2, scanStatus_eq _ _ _ hc]
  generalize changed.lookup (bytes "PlaybackStatus") = found
  by_cases hu : b.Owns unique <;> by_cases hi : interface = playerInterface <;>
    simp only [hu, hi, not_true_eq_false, not_false_eq_true, ne_eq, if_true, if_false]
  · rcases found with _ | status | _
    · exact h
    · exact h.setPlayerPlaying unique status hu
    · exact h
  · rcases found with _ | status | _ <;> exact h
  · rcases found with _ | status | _
    · exact h
    · exact h.setStatus unique status hu
    · exact h
  · rcases found with _ | status | _ <;> exact h

theorem apply_propertiesChanged_owner (interface : Bytes) (changed : List (Bytes × Variant)) :
    ((BusEvent.signal (.propertiesChanged unique interface changed)).apply b).owner = b.owner := by
  simp only [BusEvent.apply]
  split
  · split <;> rfl
  · rfl

theorem handlePropertiesChanged_wkToUnique (interface : Bytes) (changed : List (Bytes × Variant))
    (hc : (changed.map Prod.fst).Nodup) :
    (handlePropertiesChanged unique interface changed m).1.wkToUnique = m.wkToUnique := by
  simp only [handlePropertiesChanged, scanStatus_eq _ _ _ hc]
  generalize changed.lookup (bytes "PlaybackStatus") = found
  rcases found with _ | status | _ <;> split_ifs <;> simp

end Players

namespace Observed

theorem step_tracksNames (s : Observed) (e : BusEvent) (h : TracksNames s.bus s.monitor) :
    TracksNames (s.step e).bus (s.step e).monitor := by
  unfold step
  split
  · rename_i hc
    match e with
    | .unseen _ _ => exact h
    | .signal (.propertiesChanged sender interface changed) =>
        intro name hn
        simp only [handleSignal, handlePropertiesChanged_wkToUnique sender interface changed hc,
          apply_propertiesChanged_owner]
        exact h name hn
    | .signal (.nameOwnerChanged name oldOwner newOwner) =>
        simp only [BusEvent.apply, handleSignal, handleNameOwnerChanged]
        by_cases hn : isMprisName name
        · refine h.setOwner name newOwner ?_
          by_cases ho : newOwner = []
          · simpa [hn, ho] using removePlayer_lookup name
          · simpa [hn, ho] using addPlayer_lookup name newOwner
        · intro other hother
          have he : other ≠ name := fun he => hn (he ▸ hother)
          simpa [hn, Bus.lookup_setOwner, he] using h other hother
  · exact h

theorem step_exact_iff (s : Observed) (e : BusEvent) (ht : TracksNames s.bus s.monitor)
    (h : ExactPlaying s.bus s.monitor) :
    ExactPlaying (s.step e).bus (s.step e).monitor ↔ OwnershipKept s e := by
  unfold step
  split
  · rename_i hc
    match e with
    | .unseen unique status => exact iff_of_true (h.setStatus unique status hc) trivial
    | .signal (.propertiesChanged sender interface changed) =>
        exact iff_of_true (h.handlePropertiesChanged sender interface changed hc) trivial
    | .signal (.nameOwnerChanged name oldOwner newOwner) =>
        simp only [OwnershipKept, hc, true_implies]
        obtain ⟨hold, hnew⟩ := hc
        simp only [BusEvent.apply, handleSignal, handleNameOwnerChanged]
        by_cases hn : isMprisName name
        · by_cases ho : newOwner = []
          · have hne : oldOwner ≠ [] := fun he => hnew (ho.trans he.symm)
            have hlookup := s.bus.lookup_eq_some_of_getD hold hne
            simpa [hn, ho, hne] using removePlayer_exact_iff name oldOwner h ht hn hlookup
          · simp only [hn, ho, ne_eq, not_true_eq_false, not_false_eq_true, if_true, if_false, true_implies,
              iff_true]
            refine (addPlayer_exact_iff name newOwner h hn ho).trans ⟨fun hkeep hne => ?_, fun hkeep old hl => ?_⟩
            · have hlookup := s.bus.lookup_eq_some_of_getD hold hne
              exact (hkeep oldOwner hlookup).resolve_left (Ne.symm hnew)
            · obtain rfl : old = oldOwner := by simpa [hl] using hold
              exact .inr (hkeep fun he => s.bus.named name (he ▸ hl))
        · have hother : ∀ other, isMprisName other →
              s.bus.owner.lookup other = (s.bus.setOwner name newOwner).owner.lookup other := by
            intro other hother
            have he : other ≠ name := fun he => hn (he ▸ hother)
            simp [Bus.lookup_setOwner, he]
          have hx : ExactPlaying (s.bus.setOwner name newOwner) s.monitor := h.congr rfl hother
          simpa [hn] using hx
  · rename_i hc
    refine iff_of_true h ?_
    match e with
    | .unseen _ _ => trivial
    | .signal (.propertiesChanged ..) => trivial
    | .signal (.nameOwnerChanged ..) => exact fun hc' => absurd hc' hc

end Observed

-- What the scan has found so far is a part of the bus that the monitor agrees with.
structure Scanned (b found : Bus) (m : MprisMonitor) : Prop where
  status : found.status = b.status
  owner : ∀ name owner, found.owner.lookup name = some owner → b.owner.lookup name = some owner
  names : TracksNames found m
  playing : ExactPlaying found m

section Scan

variable {b found : Bus} {m : MprisMonitor}

theorem Scanned.addPlayer (h : Scanned b found m) (name unique : Bytes) (hn : isMprisName name)
    (ho : b.owner.lookup name = some unique) :
    Scanned b (found.setOwner name unique) (addPlayer b.query name unique m).1 := by
  have hu : unique ≠ [] := fun he => b.named name (he ▸ ho)
  have hq : b.query = found.query := by
    funext other
    simp [Bus.query, h.status]
  rw [hq]
  refine ⟨h.status, fun other owner hl => ?_, ?_, ?_⟩
  · rw [Bus.lookup_setOwner, if_neg hu] at hl
    split at hl
    · rename_i he
      exact he ▸ ho.trans hl
    · exact h.owner other owner hl
  · exact h.names.setOwner name unique (by simpa [hu] using addPlayer_lookup name unique)
  · refine (addPlayer_exact_iff name unique h.playing hn hu).mpr fun old hl => .inl ?_
    simpa [ho] using (h.owner name old hl).symm

-- Each name is found as if it got its owner then.
theorem Scanned.scan (h : Scanned b found m) (names : List Bytes) :
    ∃ found', Scanned b found' (scanExistingPlayers b.query b.owner.lookup names m) ∧
      ∀ name, isMprisName name → found'.owner.lookup name =
        if name ∈ names then b.owner.lookup name else found.owner.lookup name := by
  induction names generalizing found m with
  | nil => exact ⟨found, h, by simp⟩
  | cons name rest ih =>
      by_cases hn : isMprisName name
      · cases ho : b.owner.lookup name with
        | none =>
            obtain ⟨found', hs, hl⟩ := ih h
            refine ⟨found', by simpa [scanExistingPlayers, hn, ho] using hs, fun other hother => ?_⟩
            rw [hl other hother]
            by_cases he : other = name
            · subst he
              cases hf : found.owner.lookup other with
              | none => simp [ho]
              | some owner => cases ho.symm.trans (h.owner other owner hf)
            · simp [he]
        | some unique =>
            obtain ⟨found', hs, hl⟩ := ih (h.addPlayer name unique hn ho)
            refine ⟨found', by simpa [scanExistingPlayers, hn, ho] using hs, fun other hother => ?_⟩
            have hu : unique ≠ [] := fun he => b.named name (he ▸ ho)
            rw [hl other hother, Bus.lookup_setOwner]
            by_cases he : other = name
            · subst he
              simp [hu, ho]
            · simp [he]
      · obtain ⟨found', hs, hl⟩ := ih h
        refine ⟨found', by simpa [scanExistingPlayers, hn] using hs, fun other hother => ?_⟩
        have he : other ≠ name := fun he => hn (he ▸ hother)
        simpa [he] using hl other hother

-- The bus before anything is found on it.
def Bus.unowned (b : Bus) : Bus where
  owner := ∅
  status := b.status
  named := by simp

theorem scanned_unowned (b : Bus) : Scanned b b.unowned .empty where
  status := rfl
  owner := by simp [Bus.unowned]
  names := fun _ _ => rfl
  playing := fun unique => by simp [Bus.unowned, Bus.owns_iff, MprisMonitor.empty]

theorem scan_agrees (b : Bus) (names : List Bytes) (hnames : ∀ name ∈ b.owner, name ∈ names) :
    TracksNames b (scanExistingPlayers b.query b.owner.lookup names .empty) ∧
      ExactPlaying b (scanExistingPlayers b.query b.owner.lookup names .empty) := by
  obtain ⟨found, hs, hl⟩ := (scanned_unowned b).scan names
  have hfound : ∀ name, isMprisName name → found.owner.lookup name = b.owner.lookup name := by
    intro name hn
    rw [hl name hn]
    split
    · rfl
    · rename_i hout
      exact (AList.lookup_eq_none.mpr (mt (hnames name) hout)).symm
  exact ⟨fun name hn => (hs.names name hn).trans (hfound name hn), hs.playing.congr hs.status hfound⟩

end Scan

namespace Observed

-- The monitor is exact in every state of a run exactly when every name of a player
-- changes its owner as the maps of the monitor assume.
theorem exactPlaying_throughout_iff (b : Bus) (names : List Bytes)
    (hnames : ∀ name ∈ b.owner, name ∈ names) (events : List BusEvent) :
    Run.Throughout step (fun s => ExactPlaying s.bus s.monitor) (init b names) events ↔
      Run.Meets step OwnershipKept (init b names) events :=
  Run.throughout_iff_meets_of_invariant step
    (fun s => TracksNames s.bus s.monitor ∧ ExactPlaying s.bus s.monitor)
    (fun s e hs hk => ⟨step_tracksNames s e hs.1, (step_exact_iff s e hs.1 hs.2).mpr hk⟩)
    (fun _ hs => hs.2)
    (fun s e hs hx => (step_exact_iff s e hs.1 hs.2).mp hx)
    events (scan_agrees b names hnames)

-- One player, which plays.
def sampleBus : Bus :=
  let none : Bus := ⟨∅, fun _ => bytes "Paused", by simp⟩
  (none.setOwner (bytes "org.mpris.MediaPlayer2.a") (bytes ":1.1")).setStatus (bytes ":1.1") (bytes "Playing")

def sampleNames : List Bytes :=
  [bytes "org.mpris.MediaPlayer2.a"]

-- Another connection takes over the player's name.
def replaced : List BusEvent :=
  [.signal (.nameOwnerChanged (bytes "org.mpris.MediaPlayer2.a") (bytes ":1.1") (bytes ":1.2"))]

-- The player gets a second name and releases it.
def secondName : List BusEvent :=
  [.signal (.nameOwnerChanged (bytes "org.mpris.MediaPlayer2.b") [] (bytes ":1.1")),
    .signal (.nameOwnerChanged (bytes "org.mpris.MediaPlayer2.b") (bytes ":1.1") [])]

theorem exactPlaying_sample :
    Run.Throughout step (fun s => ExactPlaying s.bus s.monitor) (init sampleBus sampleNames) replaced ↔
      Run.Meets step OwnershipKept (init sampleBus sampleNames) replaced :=
  exactPlaying_throughout_iff sampleBus sampleNames (by decide) replaced

-- The old owner of a name that is replaced is taken to play on, and a player that
-- releases one of two names is forgotten.
theorem exactPlaying_misses :
    ¬ExactPlaying (Run.exec step (init sampleBus sampleNames) replaced).bus
        (Run.exec step (init sampleBus sampleNames) replaced).monitor ∧
      ¬ExactPlaying (Run.exec step (init sampleBus sampleNames) secondName).bus
        (Run.exec step (init sampleBus sampleNames) secondName).monitor := by
  constructor
  · intro h
    exact absurd ((h (bytes ":1.1")).1.mp (by decide)).1 (by decide)
  · intro h
    exact absurd ((h (bytes ":1.1")).2.mpr (by decide)) (by decide)

end Observed

end Draind.Agent
