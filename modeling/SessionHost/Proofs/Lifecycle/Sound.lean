import SessionHost.Proofs.Lifecycle.Clients
import SessionHost.Proofs.Lifecycle.Exits
import SessionHost.Proofs.Lifecycle.Lineage
import SessionHost.Proofs.Lifecycle.Moves
import SessionHost.Proofs.Lifecycle.Watches

/-!
# Sound sessions

The parts of the lifecycle's invariant rest on each other: who may change the status depends on
which processes were disposed of, and that depends on what the session holds.  Together they
hold at the beginning of a session's life and are kept by every rule, and so by every move.

Main definitions:

- `Sound`: all parts of the invariant.
- `World.Fresh`, `World.Life`: the beginning of a session's life, and the moves since then.

Main results:

- Theorem `Rule.sound`: every rule keeps a session sound.
- Theorem `World.Life.sound`: a session is sound at every moment of its life.
-/

namespace SessionHost

/-! ## The invariant -/

/-- All parts of the lifecycle's invariant. -/
structure Sound (o : Outline) : Prop where
  tenure : Tenure o
  slots : Slots o
  clients : Clients o
  lineage : Lineage o
  custody : Custody o
  supervision : Supervision o
  exits : Exits o
  watched : Watched o
  present : o.dissolved = false

/-- The process that a start brings up stands until the start is called off: nobody else knows
it before it is in the session, and what is in the session is not disposed of. -/
theorem Sound.upheld {o : Outline} (h : Sound o) : o.Upheld := by
  intro i g p s q hi hq
  obtain ⟨n, d, hs⟩ := h.custody.known hi rfl
  rw [Outline.standing?_of_some hq, Option.some.injEq] at hs
  refine ⟨congrArg Standing.purpose hs, fun hd => ?_⟩
  by_contra hc
  obtain ⟨rfl, hstatus⟩ := (h.tenure.admits hi rfl).2 hc
  have hstands : ∃ n, o.standing? p = some ⟨.main o.generation, n, false⟩ := by
    by_cases hfresh : s = .fresh
    · obtain ⟨d, hd, hfalse⟩ := h.custody.fresh hi (by rw [hfresh]; rfl)
      exact ⟨false, by rw [hd, hfalse hc]⟩
    · have hfits := h.slots.fits hi rfl (Outline.claim?_of_starting hstatus)
      have hprocess : o.session.process = some ⟨o.generation, p⟩ := by
        cases s with
        | fresh => exact absurd rfl hfresh
        | _ => exact hfits.1
      exact ⟨true, h.custody.seated hprocess⟩
  obtain ⟨n, hstands⟩ := hstands
  rw [Outline.standing?_of_some hq, Option.some.injEq] at hstands
  have hfalse : q.disposed = false := congrArg Standing.disposed hstands
  rw [hd] at hfalse
  cases hfalse

/-- A rule does not end a session's life. -/
theorem Rule.dissolved_eq {a : Actor} {o o' : Outline} (h : Rule a o o') :
    o'.dissolved = o.dissolved := by
  cases h with
  | drop hr h =>
    obtain ⟨_, _, hd⟩ := o.dispose_eq _
    rw [hd]
    rfl
  | endDebug h =>
    obtain ⟨_, _, hd⟩ := o.dispose_eq _
    rw [hd]
    rfl
  | dropWatch hx hv =>
    obtain ⟨_, _, hd⟩ := o.dispose_eq _
    rw [hd]
    rfl
  | endStop hr | endFailed hr | conclude hr h v =>
    rw [Outline.transition]
    split <;> rfl
  | adopt hr hq h =>
    rw [Outline.watchExit]
    split <;> rfl
  | withdraw hr => split <;> rfl
  | _ => rfl

/-- Every rule keeps a session sound. -/
theorem Rule.sound {a : Actor} {o o' : Outline} (h : Rule a o o') (s : Sound o) : Sound o' where
  tenure := h.tenure s.tenure s.upheld
  slots := h.slots s.tenure s.slots
  clients := h.clients s.tenure s.slots s.clients
  lineage := h.lineage s.tenure s.lineage
  custody := h.custody s.tenure s.slots s.custody
  supervision := h.supervision s.custody s.supervision
  exits := h.exits s.supervision s.exits
  watched := h.watched s.custody s.watched
  present := h.dissolved_eq.trans s.present

theorem Leads.sound {a : Actor} {o o' : Outline} (h : Leads a o o') (s : Sound o) : Sound o' :=
  h.keeps (fun _ _ hs hrule => hrule.sound hs) s

/-! ## The life of a session -/

namespace World

/-- A session at the beginning of its life: nothing has happened yet, whatever its configuration,
its settings, its store and the files around it are. -/
structure Fresh (w : World) : Prop where
  status : w.status = .notStarted
  generation : w.generation = 0
  changing : w.changing = false
  session : w.session = {}
  cancelled : w.cancelled = []
  processes : w.processes = []
  consoles : w.consoles = []
  connections : w.connections = []
  clients : w.clients = []
  inquiries : w.inquiries = []
  calls : w.calls = []
  watches : w.watches = []
  pumps : w.pumps = []
  dissolved : w.dissolved = false

theorem Fresh.outline_eq {w : World} (h : w.Fresh) :
    w.outline = ⟨.notStarted, 0, {}, [], [], [], [], [], [], false⟩ := by
  simp [outline, h.status, h.generation, h.session, h.cancelled, h.processes, h.consoles,
    h.clients, h.calls, h.watches, h.dissolved]

/-- A session is sound when nothing has happened yet. -/
theorem Fresh.sound {w : World} (h : w.Fresh) : Sound w.outline := by
  rw [h.outline_eq]
  exact {
    tenure := ⟨nofun, nofun, nofun, nofun, nofun, nofun⟩
    slots := ⟨fun _ => ⟨rfl, rfl, rfl, rfl⟩, nofun, nofun, nofun⟩
    clients := ⟨nofun, nofun⟩
    lineage := ⟨nofun, nofun, nofun⟩
    custody := ⟨nofun, nofun, nofun, nofun, nofun, nofun, nofun, nofun, nofun⟩
    supervision := ⟨nofun, nofun, nofun, nofun, nofun, nofun, nofun⟩
    exits := ⟨nofun, nofun, nofun, nofun⟩
    watched := ⟨nofun, nofun⟩
    present := rfl }

/-- What moves lead to, one after the other, if all of them can happen. -/
def play? (w : World) : List Move → Option World
  | [] => some w
  | m :: rest => (w.move? m).bind fun v => v.play? rest

/-- The life of a session, from its beginning to some moment at which it is still in use. -/
structure Life (start : World) (moves : List Move) (w : World) : Prop where
  fresh : start.Fresh
  ofSession : ∀ m ∈ moves, m.ofSession = true
  play : start.play? moves = some w

theorem play?_append (w : World) (ms ns : List Move) :
    w.play? (ms ++ ns) = (w.play? ms).bind fun v => v.play? ns := by
  induction ms generalizing w with
  | nil => rfl
  | cons m rest ih =>
    simp only [List.cons_append, play?, Option.bind_assoc]
    exact congrArg _ (funext ih)

/-- What every rule keeps of a sound session is kept by moves. -/
theorem play?_keeps {P : Outline → Prop} {w v : World} {ms : List Move}
    (hP : ∀ {a : Actor} {o o' : Outline}, Sound o → P o → Rule a o o' → P o')
    (h : w.play? ms = some v) (hm : ∀ m ∈ ms, m.ofSession = true) (s : Sound w.outline)
    (hw : P w.outline) : Sound v.outline ∧ P v.outline := by
  induction ms generalizing w with
  | nil =>
    cases h
    exact ⟨s, hw⟩
  | cons m rest ih =>
    obtain ⟨u, hu, hrest⟩ := Option.bind_eq_some_iff.1 h
    have hleads := move?_leads hu (hm m (by simp)) s.tenure.inside s.present
    have hkept : Sound u.outline ∧ P u.outline :=
      hleads.keeps (P := fun o => Sound o ∧ P o)
        (fun _ _ ho hrule => ⟨hrule.sound ho.1, hP ho.1 ho.2 hrule⟩) ⟨s, hw⟩
    exact ih hrest (fun m hm' => hm m (by simp [hm'])) hkept.1 hkept.2

theorem play?_sound {w v : World} {ms : List Move} (h : w.play? ms = some v)
    (hm : ∀ m ∈ ms, m.ofSession = true) (s : Sound w.outline) : Sound v.outline :=
  (play?_keeps (P := fun _ => True) (fun _ _ _ => trivial) h hm s trivial).1

/-- A session is sound at every moment of its life. -/
theorem Life.sound {start w : World} {ms : List Move} (h : Life start ms w) : Sound w.outline :=
  play?_sound h.play h.ofSession h.fresh.sound

/-- A life has all its earlier moments. -/
theorem Life.split {start w : World} {ms ns : List Move} (h : Life start (ms ++ ns) w) :
    ∃ v, Life start ms v ∧ v.play? ns = some w ∧ ∀ m ∈ ns, m.ofSession = true := by
  have hplay := h.play
  rw [play?_append] at hplay
  obtain ⟨v, hv, hrest⟩ := Option.bind_eq_some_iff.1 hplay
  exact ⟨v, ⟨h.fresh, fun m hm => h.ofSession m (List.mem_append_left _ hm), hv⟩, hrest,
    fun m hm => h.ofSession m (List.mem_append_right _ hm)⟩

end World

/-! ## A life to try things on -/

namespace Trial

/-- One runtime on the search path, no delays, and a place for session files. -/
def configuration : Configuration where
  platform := ⟨.linux, true, true⟩
  environment := .none
  probe := ⟨fun _ => true, fun _ => false, fun _ => none⟩
  sessionsFolder := ⟨""⟩
  logFolder := ⟨"/"⟩
  modulesFolder := ⟨"/"⟩
  host := ⟨"", "", ""⟩
  timings := ⟨.ofSeconds 1, .ofSeconds 1, .ofSeconds 1, .ofSeconds 1, .ofSeconds 1, .ofSeconds 1⟩
  sessionId := ""
  processId := .null
  mailboxRoom := 32

/-- Nothing has happened yet. -/
def start : World :=
  { config := configuration, settings := {}, store := .absent, files := .empty [] }

/-- A message of the server. -/
def message (text : String) : Move :=
  .send 0 (Text.utf8Bytes ("Content-Length: " ++ Text.decimal (Text.utf8Bytes text).length ++
    "\r\n\r\n" ++ text))

/-- The only call goes on by one piece. -/
def goOn : Move := .run (.call 0)

/-- A start, up to the handshake of its server. -/
def launching : List Move :=
  [.ask .start, goOn, goOn, .perform 0, goOn, goOn, goOn, .answerLaunch 0 (.ok none), goOn,
    .writeFile ⟨"PSES-Host--100000.json"⟩ (Text.utf8Bytes "[\"started\",null,null,null,null,1]"),
    .perform 0, goOn]

/-- The same start, from the handshake to its end. -/
def connecting : List Move :=
  [goOn, .answerConnection 0 (.ok ()), goOn, goOn, goOn, message "\x7b\"id\":1\x7d",
    .run (.reading 0), .run (.reading 0), goOn, goOn, goOn, goOn, goOn,
    message "\x7b\"id\":2,\"result\":[\"7.4.1\",\"\",\"\",\"\"]\x7d",
    .run (.reading 0), .run (.reading 0), goOn, goOn]

/-- A stop, up to its claim. -/
def claimingStop : List Move := [.ask .stop, .run (.call 1)]

/-- The console ends by itself, and its exit is seen at once. -/
def losing : List Move :=
  [.endConsole 0 (.reported ⟨some 1, false⟩), .run (.exit 0), .run (.watch 0)]

theorem fresh_start : start.Fresh := by
  constructor <;> rfl

/-- What the trial's moves lead to is a moment of a session's life. -/
theorem life {ms : List Move} {w : World} (h : start.play? ms = some w)
    (hm : ms.all Move.ofSession = true) : start.Life ms w where
  fresh := fresh_start
  ofSession := List.all_eq_true.1 hm
  play := h

end Trial

end SessionHost
