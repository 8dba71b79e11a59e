import SessionHost.Proofs.Ledger.Chores

/-!
# The ledger of a session

Processes, consoles, connections and clients are worked on all the time, and so are the files; a
session decides by far fewer things.  The ledger of a world is what is decided by: settings,
status and session, what was called off, how far every activity is, and the news that were given
about the status.  All the other work leaves the ledger as it is.

Main definitions:

- `Event.isNews`: events that tell how the status moves.
- `Ledger`, `World.ledger`: what a session decides by.

Main results:

- Theorem `World.Chore.ledger`: chores leave the ledger as it is.
- Theorem `World.onClient_ledger`: so does a piece of an exchange.
-/

namespace SessionHost

/-- The event tells how the status moves. -/
def Event.isNews : Event → Bool
  | .statusChanged _ _ => true
  | .started _ => true
  | .failed _ _ => true
  | .unexpectedExit _ _ => true
  | _ => false

/-- What is told aside is no news. -/
theorem Event.isNews_of_isAside {e : Event} (h : e.isAside = true) : e.isNews = false := by
  cases e <;> first | rfl | cases h

/-- What a session decides by. -/
structure Ledger where
  config : Configuration
  settings : Settings
  changing : Bool
  status : Status
  generation : Nat
  session : Session
  cancelled : List Token
  calls : List Call
  watches : List Watch
  pumps : List Pump
  /-- What was told about the status, in this order. -/
  news : List Event
  dissolved : Bool

namespace World

/-- The ledger of a world. -/
def ledger (w : World) : Ledger where
  config := w.config
  settings := w.settings
  changing := w.changing
  status := w.status
  generation := w.generation
  session := w.session
  cancelled := w.cancelled
  calls := w.calls
  watches := w.watches
  pumps := w.pumps
  news := w.log.filter Event.isNews
  dissolved := w.dissolved

variable (w : World)

/-! ## Events -/

/-- Most events are no news. -/
theorem ledger_record {e : Event} (h : e.isNews = false) : (w.record e).ledger = w.ledger := by
  simp [ledger, record, h]

/-- News is written down in the ledger. -/
theorem ledger_record_news {e : Event} (h : e.isNews = true) :
    (w.record e).ledger = { w.ledger with news := w.ledger.news ++ [e] } := by
  simp [ledger, record, h]

/-- Chores leave the ledger as it is. -/
theorem Chore.ledger {w v : World} (h : w.Chore v) : v.ledger = w.ledger := by
  obtain ⟨_, _, _, _, _, es, hes, rfl⟩ := h
  have hnews : es.filter Event.isNews = [] :=
    List.filter_eq_nil_iff.2 fun e he => by simp [Event.isNews_of_isAside (hes e he)]
  simp [World.ledger, hnews]

/-- A warning is not in the ledger. -/
@[simp]
theorem ledger_warn (topic : Topic) (text : String) : (w.warn topic text).ledger = w.ledger :=
  (w.chore_warn topic text).ledger

/-- What a search has found out is not in the ledger. -/
@[simp]
theorem ledger_learn {α : Type} (t : Discovery.Traced α) : (w.learn t).1.ledger = w.ledger :=
  (w.chore_learn t).ledger

/-! ## Processes, consoles and clients -/

@[simp]
theorem ledger_abandonClient (i : Nat) : (w.abandonClient i).ledger = w.ledger := by
  unfold abandonClient
  split <;> rfl

/-- Folders are not in the ledger. -/
@[simp]
theorem ledger_makeFolder : w.makeFolder.1.ledger = w.ledger :=
  w.chore_makeFolder.ledger

/-- What a console is told is not in the ledger. -/
@[simp]
theorem ledger_tellProcess (p : Nat) (command : ConsoleCommand) :
    (w.tellProcess p command).ledger = w.ledger :=
  (w.chore_tellProcess p command).ledger

/-- A disposal is not in the ledger. -/
@[simp]
theorem ledger_dispose (p : Nat) : (w.dispose p).ledger = w.ledger :=
  (w.chore_dispose p).ledger

@[simp]
theorem ledger_disposeAny (p : Option Nat) : (w.disposeAny p).ledger = w.ledger :=
  (w.chore_disposeAny p).ledger

/-- A piece of an exchange is the client's own work. -/
theorem onClient_ledger {σ α : Type} (i : Nat) (step : Client → ClientProgress σ α) :
    (w.onClient i step).Ends (·.ledger = w.ledger) := by
  unfold onClient
  split
  · trivial
  · rename_i c _
    cases step c <;> trivial

/-! ## Launches, waiting and asking -/

/-- The beginning of a launch is not in the ledger. -/
theorem beginLaunch_ledger (p : Nat) : (w.beginLaunch p).Ends (·.ledger = w.ledger) :=
  (w.beginLaunch_chore p).imp fun _ => Chore.ledger

/-- Every piece of a launch leaves the ledger as it is. -/
theorem launch_ledger (p : Nat) (place : Launching) :
    (w.launch p place).Ends (·.ledger = w.ledger) :=
  (w.launch_chore p place).imp fun _ => Chore.ledger

/-- A wait for the status writes nothing. -/
theorem wait_ledger (place : Wait) : (w.wait place).Ends (·.ledger = w.ledger) :=
  (w.wait_chore place).imp fun _ => Chore.ledger

/-- What follows from a version is not in the ledger. -/
@[simp]
theorem ledger_diagnosis (version : Option String) : (w.diagnosis version).1.ledger = w.ledger :=
  (w.chore_diagnosis version).ledger

/-! ## The status -/

/-- A move to another status is told. -/
theorem ledger_setStatus {s : Status} (h : w.status ≠ s) :
    (w.setStatus s).ledger =
      { w.ledger with
        status := s, news := w.ledger.news ++ [.statusChanged w.generation s] } := by
  rw [setStatus, if_neg h]
  exact ledger_record_news _ rfl

/-- A move to another status may be followed by more news. -/
theorem ledger_setStatus_record {s : Status} (h : w.status ≠ s) {e : Event}
    (he : e.isNews = true) :
    ((w.setStatus s).record e).ledger =
      { w.ledger with
        status := s, news := w.ledger.news ++ [.statusChanged w.ledger.generation s, e] } := by
  rw [ledger_record_news _ he, w.ledger_setStatus h]
  simp only [List.append_assoc]
  rfl

/-- A transition that is allowed takes place. -/
theorem transition_of {g : Nat} {sources : List Status} {target : Status}
    (h : w.generation = g ∧ w.status ∈ sources) :
    w.transition g sources target = (w.setStatus target, true) :=
  if_pos h

/-- A transition that is not allowed changes nothing. -/
theorem transition_of_not {g : Nat} {sources : List Status} {target : Status}
    (h : ¬(w.generation = g ∧ w.status ∈ sources)) :
    w.transition g sources target = (w, false) :=
  if_neg h

/-- A transition changes the status and says so, or changes nothing. -/
theorem transition_cases (w : World) (g : Nat) (sources : List Status) (target : Status) :
    (w.transition g sources target).1 = w ∨
      (w.transition g sources target).1 =
        { w with status := target }.record (.statusChanged w.generation target) := by
  unfold transition setStatus
  split
  · simp only []
    split
    · exact .inl rfl
    · exact .inr rfl
  · exact .inl rfl

end World

end SessionHost
