import Draind.Lib.Run
import Mathlib.Data.Finset.Card

namespace Draind.Agent

-- An ext_idle_notification_v1 object.
abbrev Notification := Nat

-- The requests the monitor makes of the compositor, and its callbacks. The agent has
-- set all three when events are dispatched first.
inductive WaylandEffect where
  | get (notif : Notification) (timeout : UInt32)
  | destroy (notif : Notification)
  | dim
  | sleep
  | active
  deriving DecidableEq

-- The monitor once init has bound the notifier and the seat, without its handles.
-- none is a null pointer.
structure WaylandIdleMonitor where
  notifDim : Option Notification
  notifSleep : Option Notification
  deriving DecidableEq

-- What get_idle_notification returns for each of the thresholds.
structure Made where
  dim : Option Notification
  sleep : Option Notification

namespace WaylandIdleMonitor

def destroyNotifications (m : WaylandIdleMonitor) : WaylandIdleMonitor × List WaylandEffect :=
  (⟨none, none⟩, m.notifSleep.toList.map .destroy ++ m.notifDim.toList.map .destroy)

-- The result, the monitor, and the requests made by then. A threshold that is off
-- has no object.
def createNotifications (made : Made) (dimMs sleepMs : Int32) (m : WaylandIdleMonitor) :
    Bool × WaylandIdleMonitor × List WaylandEffect :=
  let (m, out) := m.destroyNotifications
  let dim := if 0 < dimMs then made.dim else none
  let m := { m with notifDim := dim }
  let out := out ++ dim.toList.map fun n => .get n dimMs.toUInt32
  if 0 < dimMs ∧ dim = none then (false, m, out)
  else
    let sleep := if 0 < sleepMs then made.sleep else none
    let m := { m with notifSleep := sleep }
    let out := out ++ sleep.toList.map fun n => .get n sleepMs.toUInt32
    (¬(0 < sleepMs ∧ sleep = none), m, out)

-- init, from where the notifier and the seat are bound.
def init (made : Made) (dimMs sleepMs : Int32) : Bool × WaylandIdleMonitor × List WaylandEffect :=
  createNotifications made dimMs sleepMs ⟨none, none⟩

def setTimeouts (made : Made) (dimMs sleepMs : Int32) (m : WaylandIdleMonitor) :
    WaylandIdleMonitor × List WaylandEffect :=
  (m.createNotifications made dimMs sleepMs).2

def onNotificationIdled (notif : Notification) (m : WaylandIdleMonitor) : List WaylandEffect :=
  if some notif = m.notifDim then [.dim]
  else if some notif = m.notifSleep then [.sleep]
  else []

-- Whichever of the objects it is.
def onNotificationResumed (_ : Notification) (_ : WaylandIdleMonitor) : List WaylandEffect :=
  [.active]

end WaylandIdleMonitor

-- What passes between the compositor, the monitor and the agent: the events that
-- wl_display_dispatch hands to the listeners, idled or resumed, and what the monitor
-- does.
inductive Passed where
  | event (notif : Notification) (idled : Bool)
  | effect (e : WaylandEffect)
  deriving DecidableEq

-- The monitor, with all that has passed.
structure Watch where
  monitor : WaylandIdleMonitor
  trace : List Passed

inductive WatchMove where
  | event (notif : Notification) (idled : Bool)
  | setTimeouts (made : Made) (dimMs sleepMs : Int32)

namespace Watch

-- The objects there are: made, and not destroyed since.
def keep (live : Finset Notification) : Passed → Finset Notification
  | .effect (.get notif _) => insert notif live
  | .effect (.destroy notif) => live.erase notif
  | _ => live

def live (trace : List Passed) : Finset Notification :=
  trace.foldl keep ∅

-- The objects whose last event is idled.
def stand (standing : Finset Notification) : Passed → Finset Notification
  | .event notif true => insert notif standing
  | .event notif false => standing.erase notif
  | .effect (.destroy notif) => standing.erase notif
  | _ => standing

def standing (trace : List Passed) : Finset Notification :=
  trace.foldl stand ∅

def isReport : Passed → Bool
  | .effect e => e = .dim || e = .sleep
  | .event _ _ => false

def isReturn : Passed → Bool
  | .effect e => e = .active
  | .event _ _ => false

def start (made : Made) (dimMs sleepMs : Int32) : Watch :=
  let (_, m, out) := WaylandIdleMonitor.init made dimMs sleepMs
  ⟨m, out.map .effect⟩

def step (w : Watch) : WatchMove → Watch
  | .event notif idled =>
      let calls := if idled then w.monitor.onNotificationIdled notif else w.monitor.onNotificationResumed notif
      { w with trace := w.trace ++ .event notif idled :: calls.map .effect }
  | .setTimeouts made dimMs sleepMs =>
      let (m, out) := w.monitor.setTimeouts made dimMs sleepMs
      ⟨m, w.trace ++ out.map .effect⟩

-- What the protocol and the client library promise of an event.
structure Promised (trace : List Passed) (notif : Notification) (idled : Bool) : Prop where
  -- Only an object that is there gets events.
  alive : notif ∈ live trace
  -- The events of an object are idled and resumed in turn.
  turns : idled = true ↔ notif ∉ standing trace

-- Which events come, and when, is the compositor's to say, and so is what it makes.
def Delivered (w : Watch) : WatchMove → Prop
  | .event notif idled => Promised w.trace notif idled
  | .setTimeouts _ _ _ => True

-- on_active has been called as often as on_dim and on_sleep, but for the objects that
-- stand idled.
def Balanced (w : Watch) : Prop :=
  w.trace.countP isReport = w.trace.countP isReturn + (standing w.trace).card

-- No timeouts come between an idled and its resumed.
def KeepsReturns (w : Watch) : WatchMove → Prop
  | .setTimeouts _ _ _ => standing w.trace = ∅
  | .event _ _ => True

section Balance

-- The objects the monitor holds.
def held (m : WaylandIdleMonitor) : List Notification :=
  m.notifDim.toList ++ m.notifSleep.toList

-- The objects there are, are those of the monitor, and only they stand idled.
structure Sound (w : Watch) : Prop where
  kept : live w.trace = (held w.monitor).toFinset
  alive : standing w.trace ⊆ live w.trace
  balanced : w.Balanced

theorem live_append (first second : List Passed) : live (first ++ second) = second.foldl keep (live first) :=
  List.foldl_append

theorem standing_append (first second : List Passed) :
    standing (first ++ second) = second.foldl stand (standing first) :=
  List.foldl_append

-- Every object that was held is destroyed, and those made next are held, as far as it
-- has come.
theorem createNotifications_spec (made : Made) (dimMs sleepMs : Int32) (m : WaylandIdleMonitor) :
    ∃ gets : List (Notification × UInt32),
      (m.createNotifications made dimMs sleepMs).2.2 =
        (held m).reverse.map WaylandEffect.destroy ++ gets.map (fun g => WaylandEffect.get g.1 g.2) ∧
      held (m.createNotifications made dimMs sleepMs).2.1 = gets.map Prod.fst := by
  have hdestroy : m.destroyNotifications = (⟨none, none⟩, (held m).reverse.map WaylandEffect.destroy) := by
    obtain ⟨_ | dim, _ | sleep⟩ := m <;> rfl
  unfold WaylandIdleMonitor.createNotifications
  rw [hdestroy]
  dsimp only
  generalize (if 0 < dimMs then made.dim else none) = dim
  generalize (if 0 < sleepMs then made.sleep else none) = sleep
  by_cases hfail : 0 < dimMs ∧ dim = none
  · rw [if_pos hfail]
    exact ⟨[], by simp [hfail.2], by simp [held, hfail.2]⟩
  · rw [if_neg hfail]
    refine ⟨dim.toList.map (fun n => (n, dimMs.toUInt32)) ++ sleep.toList.map (fun n => (n, sleepMs.toUInt32)),
      ?_, ?_⟩
    · simp [Function.comp_def]
    · simp [held, Function.comp_def]

theorem foldl_destroy {f : Finset Notification → Passed → Finset Notification}
    (hf : ∀ s n, f s (.effect (.destroy n)) = s.erase n) (ids : List Notification) (s : Finset Notification) :
    ((ids.map WaylandEffect.destroy).map Passed.effect).foldl f s = s \ ids.toFinset := by
  induction ids generalizing s with
  | nil => simp
  | cons n rest ih =>
      rw [List.map_cons, List.map_cons, List.foldl_cons, hf, ih, List.toFinset_cons, Finset.sdiff_insert,
        Finset.erase_sdiff_comm]

theorem get_live (gets : List (Notification × UInt32)) (s : Finset Notification) :
    ((gets.map fun g => WaylandEffect.get g.1 g.2).map Passed.effect).foldl keep s =
      s ∪ (gets.map Prod.fst).toFinset := by
  induction gets generalizing s with
  | nil => simp
  | cons g rest ih =>
      simp only [List.map_cons, List.foldl_cons, ih, keep]
      rw [List.toFinset_cons, Finset.insert_union, Finset.union_insert]

theorem get_standing (gets : List (Notification × UInt32)) (s : Finset Notification) :
    ((gets.map fun g => WaylandEffect.get g.1 g.2).map Passed.effect).foldl stand s = s := by
  induction gets generalizing s with
  | nil => rfl
  | cons g rest ih => exact ih s

-- What requests report and return: nothing.
theorem requests_count {out : List WaylandEffect}
    (h : ∀ e ∈ out, (∃ n, e = .destroy n) ∨ ∃ n timeout, e = .get n timeout) :
    (out.map Passed.effect).countP isReport = 0 ∧ (out.map Passed.effect).countP isReturn = 0 := by
  simp only [List.countP_eq_zero, List.forall_mem_map]
  refine ⟨fun e he => ?_, fun e he => ?_⟩
  · obtain ⟨n, rfl⟩ | ⟨n, timeout, rfl⟩ := h e he <;> exact Bool.false_ne_true
  · obtain ⟨n, rfl⟩ | ⟨n, timeout, rfl⟩ := h e he <;> exact Bool.false_ne_true

-- After new timeouts there are the new objects, and none of them stands idled.
theorem recreated (trace : List Passed) (m : WaylandIdleMonitor) (hkept : live trace = (held m).toFinset)
    (halive : standing trace ⊆ live trace) (made : Made) (dimMs sleepMs : Int32) :
    let next := (m.createNotifications made dimMs sleepMs).2
    live (trace ++ next.2.map Passed.effect) = (held next.1).toFinset ∧
      standing (trace ++ next.2.map Passed.effect) = ∅ ∧
      (trace ++ next.2.map Passed.effect).countP isReport = trace.countP isReport ∧
      (trace ++ next.2.map Passed.effect).countP isReturn = trace.countP isReturn := by
  obtain ⟨gets, hout, hheld⟩ := createNotifications_spec made dimMs sleepMs m
  have hrequests : ∀ e ∈ (m.createNotifications made dimMs sleepMs).2.2,
      (∃ n, e = .destroy n) ∨ ∃ n timeout, e = .get n timeout := by
    rw [hout]
    intro e he
    rcases List.mem_append.mp he with he | he
    · obtain ⟨n, -, rfl⟩ := List.mem_map.mp he
      exact .inl ⟨n, rfl⟩
    · obtain ⟨g, -, rfl⟩ := List.mem_map.mp he
      exact .inr ⟨g.1, g.2, rfl⟩
  obtain ⟨hreports, hreturns⟩ := requests_count hrequests
  refine ⟨?_, ?_, ?_, ?_⟩
  · rw [hout, hheld, List.map_append, live_append, List.foldl_append, foldl_destroy (fun _ _ => rfl), get_live, hkept,
      List.toFinset_reverse, Finset.sdiff_self, Finset.empty_union]
  · rw [hout, List.map_append, standing_append, List.foldl_append, foldl_destroy (fun _ _ => rfl), get_standing,
      List.toFinset_reverse, ← hkept]
    exact Finset.sdiff_eq_empty_iff_subset.mpr halive
  · rw [List.countP_append, hreports, Nat.add_zero]
  · rw [List.countP_append, hreturns, Nat.add_zero]

theorem recreated_sound (trace : List Passed) (m : WaylandIdleMonitor) (hkept : live trace = (held m).toFinset)
    (halive : standing trace ⊆ live trace) (heven : trace.countP isReport = trace.countP isReturn)
    (made : Made) (dimMs sleepMs : Int32) :
    let next := (m.createNotifications made dimMs sleepMs).2
    Sound ⟨next.1, trace ++ next.2.map Passed.effect⟩ := by
  obtain ⟨hlive, hstanding, hreports, hreturns⟩ := recreated trace m hkept halive made dimMs sleepMs
  refine ⟨hlive, ?_, ?_⟩
  · rw [hstanding]
    exact Finset.empty_subset _
  · rw [Balanced, hreports, hreturns, hstanding, heven, Finset.card_empty, Nat.add_zero]

theorem start_sound (made : Made) (dimMs sleepMs : Int32) : (start made dimMs sleepMs).Sound :=
  recreated_sound [] ⟨none, none⟩ rfl (Finset.Subset.refl _) rfl made dimMs sleepMs

-- Of an object that is there, an idled is reported and a resumed returned from.
theorem event_step {w : Watch} (h : w.Sound) {notif : Notification} (hlive : notif ∈ live w.trace) (idled : Bool) :
    ∃ call, step w (.event notif idled) = ⟨w.monitor, w.trace ++ [.event notif idled, .effect call]⟩ ∧
      (call = .dim ∨ call = .sleep ∨ call = .active) ∧
      isReport (.effect call) = idled ∧ isReturn (.effect call) = !idled := by
  have hheld : w.monitor.notifDim = some notif ∨ w.monitor.notifSleep = some notif := by
    rw [h.kept] at hlive
    simpa [held] using hlive
  cases idled with
  | false => exact ⟨.active, rfl, by simp, rfl, rfl⟩
  | true =>
      by_cases hdim : w.monitor.notifDim = some notif
      · exact ⟨.dim, by simp [step, WaylandIdleMonitor.onNotificationIdled, hdim], by simp, rfl, rfl⟩
      · have hsleep := hheld.resolve_left hdim
        exact ⟨.sleep, by simp [step, WaylandIdleMonitor.onNotificationIdled, hsleep, Ne.symm hdim], by simp,
          rfl, rfl⟩

theorem event_sound {w : Watch} (h : w.Sound) {notif : Notification} {idled : Bool}
    (hp : Promised w.trace notif idled) : (step w (.event notif idled)).Sound := by
  obtain ⟨call, hstep, hkind, hreport, hreturn⟩ := event_step h hp.alive idled
  have hlive : live (w.trace ++ [.event notif idled, .effect call]) = live w.trace := by
    rw [live_append]
    rcases hkind with rfl | rfl | rfl <;> rfl
  have hstanding : standing (w.trace ++ [.event notif idled, .effect call]) =
      stand (standing w.trace) (.event notif idled) := by
    rw [standing_append]
    rcases hkind with rfl | rfl | rfl <;> rfl
  have hbalanced := h.balanced
  unfold Balanced at hbalanced
  rw [hstep]
  refine ⟨hlive.trans h.kept, ?_, ?_⟩
  · rw [hlive, hstanding]
    cases idled with
    | true => exact Finset.insert_subset hp.alive h.alive
    | false => exact (Finset.erase_subset _ _).trans h.alive
  · simp only [Balanced, hstanding, List.countP_append, List.countP_cons, List.countP_nil, hreport, hreturn]
    cases idled with
    | true =>
        have hcard := Finset.card_insert_of_notMem (hp.turns.mp rfl)
        simp only [isReport, isReturn, stand, hcard, hbalanced, Bool.not_true, Bool.false_eq_true, if_true, if_false]
        omega
    | false =>
        have hstands : notif ∈ standing w.trace := by
          by_contra hnot
          cases hp.turns.mpr hnot
        have hcard := Finset.card_erase_add_one hstands
        simp only [isReport, isReturn, stand, hbalanced, Bool.not_false, Bool.false_eq_true, if_true, if_false]
        omega

-- An event that comes as promised, or new timeouts while no report stands.
theorem step_sound {w : Watch} (h : w.Sound) (move : WatchMove) (hd : w.Delivered move)
    (hk : w.KeepsReturns move) : (step w move).Sound := by
  cases move with
  | event notif idled => exact event_sound h hd
  | setTimeouts made dimMs sleepMs =>
      have heven := h.balanced
      rw [Balanced, show standing w.trace = ∅ from hk, Finset.card_empty, Nat.add_zero] at heven
      exact recreated_sound _ _ h.kept h.alive heven made dimMs sleepMs

-- Right after new timeouts nothing stands idled any more.
theorem keepsReturns_of_balanced {w : Watch} (h : w.Sound) (move : WatchMove) (hb : (step w move).Balanced) :
    w.KeepsReturns move := by
  cases move with
  | event notif idled => trivial
  | setTimeouts made dimMs sleepMs =>
      obtain ⟨-, hstanding, hreports, hreturns⟩ := recreated _ _ h.kept h.alive made dimMs sleepMs
      have heven : w.trace.countP isReport = w.trace.countP isReturn + (∅ : Finset Notification).card := by
        rw [← hreports, ← hreturns, ← hstanding]
        exact hb
      have hbalanced := h.balanced
      rw [Balanced, heven] at hbalanced
      exact Finset.card_eq_zero.mp (Nat.add_left_cancel hbalanced).symm

-- Whatever the compositor delivers and makes, as it has promised: the user is returned
-- from as often as reported away, but for what stands idled, exactly when no timeouts come
-- while a report stands.
theorem balanced_throughout_iff (made : Made) (dimMs sleepMs : Int32) (moves : List WatchMove)
    (hd : Run.Meets step Delivered (start made dimMs sleepMs) moves) :
    Run.Throughout step Balanced (start made dimMs sleepMs) moves ↔
      Run.Meets step KeepsReturns (start made dimMs sleepMs) moves :=
  Run.throughout_iff_meets_under step Sound (fun _ move h hd hk => step_sound h move hd hk)
    (fun _ h => h.balanced) (fun _ move h _ hb => keepsReturns_of_balanced h move hb)
    (start_sound made dimMs sleepMs) hd

-- The second object of the new timeouts is not made, and the next timeouts come while
-- the first one stands idled.
def failThenLose : List WatchMove :=
  [.event 0 true, .event 1 true, .event 0 false, .event 1 false, .setTimeouts ⟨some 2, none⟩ 5000 9000,
    .event 2 true, .setTimeouts ⟨some 3, none⟩ 60000 0]

theorem failThenLose_delivered : Run.Meets step Delivered (start ⟨some 0, some 1⟩ 3000 9000) failThenLose :=
  ⟨⟨by decide, by decide⟩, ⟨by decide, by decide⟩, ⟨by decide, by decide⟩, ⟨by decide, by decide⟩, trivial,
    ⟨by decide, by decide⟩, trivial, trivial⟩

theorem balanced_failThenLose :
    Run.Throughout step Balanced (start ⟨some 0, some 1⟩ 3000 9000) failThenLose ↔
      Run.Meets step KeepsReturns (start ⟨some 0, some 1⟩ 3000 9000) failThenLose :=
  balanced_throughout_iff ⟨some 0, some 1⟩ 3000 9000 failThenLose failThenLose_delivered

-- A profile of other timeouts comes while the screen is dimmed. The object that would
-- have told of the user is gone.
example : standing (Run.exec step (start ⟨some 0, none⟩ 3000 0)
      [.event 0 true, .setTimeouts ⟨some 1, none⟩ 5000 0]).trace = ∅ ∧
    (Run.exec step (start ⟨some 0, none⟩ 3000 0)
      [.event 0 true, .setTimeouts ⟨some 1, none⟩ 5000 0]).trace.countP isReturn = 0 := by
  decide

end Balance

end Watch

end Draind.Agent
