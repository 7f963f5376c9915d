import Mathlib.Data.List.DropRight
import Ebnf.Proofs.Journal
/-! The log as a window. Whatever is pushed, and however often the log is emptied in
between, it shows the newest of the entries pushed since it was emptied last, up to its
capacity; the warnings echoed are all those pushed. A session does to its log what its
commands push and drain. -/

namespace Ebnf

/-- The end of the end of a list. -/
theorem rtake_rtake {α : Type} (l : List α) {m n : Nat} (h : m ≤ n) : (l.rtake n).rtake m = l.rtake m := by
  simp only [List.rtake_eq_reverse_take_reverse, List.reverse_reverse, List.take_take, Nat.min_eq_left h]

namespace Log

/-- What can happen to a log. -/
inductive Event
  | push (e : Entry)
  | drain
  deriving DecidableEq, Repr

def Event.entry? : Event → Option Entry
  | push e => some e
  | drain => none

/-- The entries pushed in the course of some events. -/
def pushed (events : List Event) : List Entry := events.filterMap Event.entry?

/-- The entries pushed since the log was emptied last. -/
def recent (events : List Event) : List Entry := pushed (events.rtakeWhile (· ≠ .drain))

/-- The newest of the recent entries, as many as a log holds. -/
def window (events : List Event) : List Entry := (recent events).rtake capacity

def meet (log : Log) : Event → Log
  | .push e => log.push e
  | .drain => log.drain.2

/-- A log after some events. -/
def follow (log : Log) (events : List Event) : Log := events.foldl meet log

/-- What a log that was empty at first gives away after some events. -/
structure Shows (log : Log) (events : List Event) : Prop where
  entries : log.entries = window events
  size : log.entries.length = min capacity (recent events).length
  drained : log.drain.1 = window events
  emptied : log.drain.2.entries = []
  messages : ∀ level, log.messagesAt level = ((window events).filter (·.level = level)).map Entry.message
  text : log.text = String.join ((window events).map (·.text ++ "\n"))
  echoed : log.echoed = (pushed events).filter (·.level = .warn)

section Events

variable (log : Log) (events : List Event) (e : Entry)

theorem follow_append (more : List Event) : log.follow (events ++ more) = (log.follow events).follow more :=
  List.foldl_append

theorem follow_map_push (es : List Entry) : log.follow (es.map .push) = log.pushAll es := List.foldl_map

theorem pushed_append (more : List Event) : pushed (events ++ more) = pushed events ++ pushed more :=
  List.filterMap_append

theorem recent_concat_push : recent (events ++ [.push e]) = recent events ++ [e] := by
  unfold recent
  rw [List.rtakeWhile_concat_pos _ _ _ (by simp), pushed_append]
  rfl

theorem recent_concat_drain : recent (events ++ [.drain]) = [] := by
  unfold recent
  rw [List.rtakeWhile_concat_neg _ _ _ (by simp)]
  rfl

/-- A push keeps the newest entries, the one pushed among them. -/
theorem entries_push : (log.push e).entries = (log.entries ++ [e]).rtake capacity := by
  have hle : log.entries.length + 1 - capacity ≤ log.entries.length := by
    have hpos : 0 < capacity := by decide
    omega
  unfold push List.rtake
  rw [List.length_append, List.length_singleton, List.drop_append_of_le_length hle]

theorem window_concat_push : window (events ++ [.push e]) = (window events ++ [e]).rtake capacity := by
  have hcapacity : capacity = (capacity - 1) + 1 := rfl
  unfold window
  rw [recent_concat_push, hcapacity, List.rtake_concat_succ, List.rtake_concat_succ,
    rtake_rtake _ (Nat.le_succ _)]

/-- What has fallen out of the window is of no account for what happens next. -/
theorem entries_follow : ((∅ : Log).follow events).entries = window events := by
  -- from the end, where the newest entry comes in and the last drain is found
  induction events using List.reverseRecOn with
  | nil => rfl
  | append_singleton events event ih =>
    rw [follow_append]
    cases event with
    | push e =>
      rw [window_concat_push, ← ih]
      exact entries_push ..
    | drain =>
      unfold window
      rw [recent_concat_drain]
      rfl

theorem echoed_follow : (log.follow events).echoed =
    log.echoed ++ (pushed events).filter (·.level = .warn) := by
  induction events generalizing log with
  | nil => exact (List.append_nil _).symm
  | cons event events ih =>
    have hstep : (log.meet event).echoed = log.echoed ++ (pushed [event]).filter (·.level = .warn) := by
      cases event with
      | push e => exact log.echoed_push e
      | drain => exact (List.append_nil _).symm
    rw [follow, List.foldl_cons, ← follow, ih, hstep, List.append_assoc, ← List.filter_append, ← pushed_append,
      List.singleton_append]

theorem length_window : (window events).length = min capacity (recent events).length := by
  unfold window List.rtake
  rw [List.length_drop]
  omega

theorem shows_follow : ((∅ : Log).follow events).Shows events := by
  have hentries := entries_follow events
  constructor
  case entries => exact hentries
  case size => rw [hentries, length_window]
  case drained => exact hentries
  case emptied => rfl
  case messages => intro level; rw [messagesAt, hentries]
  case text => rw [text, hentries]
  case echoed => rw [echoed_follow]; rfl

end Events

end Log

namespace Session

variable (storage : Storage) (s : Session)

/-- What a command does to the log. -/
def eventsOf (c : Command) : List Log.Event :=
  (if c.drains then [.drain] else []) ++ (s.perform storage c).entries.map .push

/-- What some commands do to the log, one after the other. -/
def events (s : Session) : List Command → List Log.Event
  | [] => []
  | c :: rest => s.eventsOf storage c ++ events (s.step storage c).1 rest

theorem log_step (c : Command) : (s.step storage c).1.log = s.log.follow (s.eventsOf storage c) := by
  unfold step eventsOf
  rw [Log.follow_append, Log.follow_map_push]
  refine congrArg (Log.pushAll · (s.perform storage c).entries) ?_
  cases h : c.drains with
  | false => exact s.log_perform storage h
  | true =>
    cases c with
    | drain => rfl
    | _ => cases h

theorem log_follows (commands : List Command) :
    (s.run storage commands).1.log = s.log.follow (s.events storage commands) := by
  induction commands generalizing s with
  | nil => rfl
  | cons c rest ih =>
    rw [events, Log.follow_append, ← log_step]
    exact ih _

/-- The log is a window on what is pushed, whether by the work of a session or by itself,
and whenever it is emptied. Its answers are those of the window, and the warnings echoed
are all that were pushed, also those that are gone. -/
theorem log_shows_window (commands : List Command) :
    let events := (∅ : Session).events storage commands
    let now := ((∅ : Session).run storage commands).1
    now.log.Shows events ∧
      now.step storage .drain = ({ now with log := now.log.drain.2 }, .entries (Log.window events)) ∧
      (∀ level, now.step storage (.messagesAt level) =
        (now, .messages (((Log.window events).filter (·.level = level)).map Log.Entry.message))) ∧
      now.step storage .logText =
        (now, .text (String.join ((Log.window events).map (·.text ++ "\n")))) ∧
      ∀ events : List Log.Event, ((∅ : Log).follow events).Shows events := by
  intro events now
  have hshows : now.log.Shows events := by
    have hlog : now.log = (∅ : Log).follow events := log_follows storage ∅ commands
    rw [hlog]
    exact Log.shows_follow events
  refine ⟨hshows, ?_, fun level => ?_, ?_, Log.shows_follow⟩
  · rw [← hshows.drained]
    rfl
  · rw [← hshows.messages]
    rfl
  · rw [← hshows.text]
    rfl

end Session

end Ebnf
