import PikeAnalysis.Assoc

/-!
# Debounced scheduling

Decides when documents are validated.  An edited document is validated once it has been left alone
for a while; one that was opened or saved, at once.  At most one validation of a document runs at a
time, and what happens meanwhile is remembered in its slot:

* idle, then pending on an edit, with a timer that every further edit starts anew;
* running once the timer fires, or on open and save;
* after the run, running again if a save or open came meanwhile, pending if an edit came, else idle.

The machine only decides.  What is to be done with timers, runs and waiting tasks is its output.

Slots outlive their registration.  A document that is closed during its run keeps its slot until the
run has ended, so that a document which is opened again meanwhile goes on with the slot and the run
that it has; a document that was closed for good gets a new slot when it comes back.  Timers and
runs name the slot that they were started for, and what they report counts only if that is still the
slot of their document (`isCurrent`).
-/

namespace PikeAnalysis.Scheduler

/-! ## State -/

/-- What a document is waiting for.  An idle document waits for nothing, a pending one for its
timer, and a running one for its run. -/
inductive Phase where
  | idle | pending | running
  deriving DecidableEq, Repr, Inhabited

/-- The word for a phase. -/
def Phase.text : Phase → String
  | .idle => "idle"
  | .pending => "pending"
  | .running => "running"

/-- What is known about a document.  The marks say what came during a run and are looked at when it
ends. -/
structure Slot where
  version : Int := 0
  text : String := ""
  phase : Phase := .idle
  timer : Option Nat := none
  run : Option Nat := none
  /-- An edit came during the run. -/
  dirty : Bool := false
  /-- A save or open came during the run. -/
  rerunNow : Bool := false
  /-- The document was closed during the run. -/
  closed : Bool := false
  /-- Whether the waiting for the slot to become idle is over. -/
  idle : Bool := true
  /-- The tickets of those who wait for the slot to become idle. -/
  waiters : List Nat := []
  deriving DecidableEq, Repr, Inhabited

/-- A timer: the document and slot it was started for.  Both are kept because the document may have
been closed and opened again since, in another slot. -/
structure TimerEntry where
  uri : String
  slot : Nat
  deriving DecidableEq, Repr

/-- A validation: the document and slot it is for, and what it validates.  Version and text are
copied from the slot when it starts, so later edits do not change what it validates. -/
structure Run where
  uri : String
  slot : Nat
  version : Int
  text : String
  deriving DecidableEq, Repr

/-- The state of the scheduler.  Timers and runs are known by number, and so are slots; numbers are
not used again. -/
structure State where
  /-- The quiet time before an edited document is validated, in milliseconds. -/
  debounce : Int := 250
  /-- The slots of the registered documents, in the order of their registration. -/
  docs : List (String × Nat) := []
  /-- All slots, those of closed documents included. -/
  slots : List (Nat × Slot) := []
  /-- The timers that have been neither cancelled nor used up. -/
  timers : List (Nat × TimerEntry) := []
  /-- The runs that have not ended. -/
  runs : List (Nat × Run) := []
  completed : Nat := 0
  nextSlot : Nat := 0
  nextTimer : Nat := 0
  nextRun : Nat := 0
  deriving Repr

/-- The least quiet time, in milliseconds. -/
def debounceMin : Int := 50

/-- The greatest quiet time, in milliseconds. -/
def debounceMax : Int := 2000

/-- The usual quiet time, in milliseconds. -/
def debounceDefault : Int := 250

/-- A scheduler without documents.  The quiet time is kept within its bounds. -/
def State.start (debounce : Int) : State :=
  { debounce := min (max debounce debounceMin) debounceMax }

/-- What is to be done outside.  The machine changes nothing but its own state.  What it wants of
the loop and of the stores is in these, in the order in which it is to be done. -/
inductive Effect where
  | armTimer (timer : Nat)
  | cancelTimer (timer : Nat)
  | startRun (run : Nat)
  | cancelRun (run : Nat)
  /-- Lets those go on who waited for a slot to become idle. -/
  | wake (tickets : List Nat)
  | closed (uri : String)
  deriving DecidableEq, Repr

/-- What happens to the scheduler.  The first four come from the editor, the others from the tasks
of timers and runs and from the engine. -/
inductive Event where
  | change (uri : String) (version : Int) (text : String)
  | opened (uri : String) (version : Int) (text : String)
  | save (uri : String) (version : Option Int) (text : Option String)
  | close (uri : String)
  /-- A timer has fired and was not cancelled before. -/
  | fired (timer : Nat)
  /-- A run has ended, in whatever way. -/
  | ended (run : Nat)
  /-- A run was cancelled before it began. -/
  | dropped (run : Nat)
  | stop
  deriving Repr

namespace State

/-! ## Slots -/

def slot? (s : State) (id : Nat) : Option Slot :=
  Assoc.get? id s.slots

/-- The slot of a registered document. -/
def slotOf? (s : State) (uri : String) : Option (Nat × Slot) :=
  (Assoc.get? uri s.docs).bind fun id => (s.slot? id).map (id, ·)

def setSlot (s : State) (id : Nat) (slot : Slot) : State :=
  { s with slots := Assoc.set id slot s.slots }

def phaseOf (s : State) (uri : String) : Phase :=
  (s.slotOf? uri).elim .idle (·.2.phase)

/-- Whether a slot is the one of its document.  A slot that is not belongs to a document that was
closed, or to a former life of one. -/
def isCurrent (s : State) (uri : String) (id : Nat) : Bool :=
  Assoc.get? uri s.docs == some id

/-- Registers a document unless it is registered, and records what is new about it. -/
def touch (s : State) (uri : String) (version : Option Int) (text : Option String) :
    State × Nat :=
  let (s, id, slot) :=
    match s.slotOf? uri with
    | some (id, slot) => (s, id, slot)
    | none =>
      let id := s.nextSlot
      ({ s with nextSlot := id + 1, docs := Assoc.set uri id s.docs }, id, ({} : Slot))
  let slot := { slot with
    closed := false
    version := version.getD slot.version
    text := text.getD slot.text }
  (s.setSlot id slot, id)

/-! ## Timers and runs -/

/-- Cancels the timer of a slot, if it has one.  The timer is forgotten at once, so it cannot fire
any more even if its task is already due. -/
def cancelTimer (s : State) (id : Nat) : State × List Effect :=
  match s.slot? id with
  | none => (s, [])
  | some slot =>
    match slot.timer with
    | none => (s, [])
    | some t =>
      ({ s with timers := Assoc.erase t s.timers }.setSlot id { slot with timer := none },
        [.cancelTimer t])

/-- Starts the timer of a slot anew.  A timer that was running is cancelled before. -/
def armTimer (s : State) (uri : String) (id : Nat) : State × List Effect :=
  let (s, out) := s.cancelTimer id
  match s.slot? id with
  | none => (s, out)
  | some slot =>
    let t := s.nextTimer
    let slot := { slot with phase := .pending, idle := false, timer := some t }
    ({ s with nextTimer := t + 1, timers := s.timers ++
       [(t, { uri, slot := id : TimerEntry })] }.setSlot id slot,
      out ++ [.armTimer t])

/-- Starts a run of what a slot holds.  The marks are cleared: whatever comes from now on comes
during this run. -/
def startRun (s : State) (uri : String) (id : Nat) : State × List Effect :=
  match s.slot? id with
  | none => (s, [])
  | some slot =>
    let r := s.nextRun
    let run : Run := { uri, slot := id, version := slot.version, text := slot.text }
    let slot := { slot with
      phase := .running, dirty := false, rerunNow := false, idle := false, run := some r }
    ({ s with nextRun := r + 1, runs := s.runs ++ [(r, run)] }.setSlot id slot, [.startRun r])

/-- Makes a slot idle and lets those go on who wait for it.  They are let go on together, in the
order in which they began to wait. -/
def makeIdle (s : State) (id : Nat) : State × List Effect :=
  match s.slot? id with
  | none => (s, [])
  | some slot =>
    (s.setSlot id { slot with phase := .idle, idle := true, waiters := [] },
      if slot.waiters.isEmpty then [] else [.wake slot.waiters])

/-- Runs at once, or again as soon as the run in flight ends.  A timer that was running is not
needed any more. -/
def validateNow (s : State) (uri : String) (id : Nat) : State × List Effect :=
  match s.slot? id with
  | none => (s, [])
  | some slot =>
    if slot.phase = .running then (s.setSlot id { slot with rerunNow := true }, [])
    else
      let (s, out) := s.cancelTimer id
      let (s, more) := s.startRun uri id
      (s, out ++ more)

/-! ## Events -/

def onChange (s : State) (uri : String) (version : Int) (text : String) : State × List Effect :=
  let (s, id) := s.touch uri (some version) (some text)
  match s.slot? id with
  | none => (s, [])
  | some slot =>
    if slot.phase = .running then (s.setSlot id { slot with dirty := true }, [])
    else s.armTimer uri id

def onOpen (s : State) (uri : String) (version : Int) (text : String) : State × List Effect :=
  let (s, id) := s.touch uri (some version) (some text)
  s.validateNow uri id

/-- A save that says nothing new counts only for a document that is registered and not closed. -/
def onSave (s : State) (uri : String) (version : Option Int) (text : Option String) :
    State × List Effect :=
  let known := (s.slotOf? uri).any fun e => !e.2.closed
  if !known && (version.isNone || text.isNone) then (s, [])
  else
    let (s, id) := s.touch uri version text
    s.validateNow uri id

/-- A closed document stays registered until its run has ended.  If none is under way it goes at
once.  That it was closed is told in either case, last of all effects. -/
def onClose (s : State) (uri : String) : State × List Effect :=
  match s.slotOf? uri with
  | none => (s, [.closed uri])
  | some (id, _) =>
    let (s, out) := s.cancelTimer id
    match s.slot? id with
    | none => (s, out ++ [.closed uri])
    | some slot =>
      let slot := { slot with dirty := false, rerunNow := false }
      if slot.run.any fun r => Assoc.has r s.runs then
        (s.setSlot id { slot with closed := true }, out ++ [.closed uri])
      else
        let (s, more) := { s with docs := Assoc.erase uri s.docs }.setSlot id slot |>.makeIdle id
        (s, out ++ more ++ [.closed uri])

/-- A timer that has fired is used up.  It starts a run if its slot is still registered. -/
def onFired (s : State) (timer : Nat) : State × List Effect :=
  match Assoc.get? timer s.timers with
  | none => (s, [])
  | some entry =>
    let s := { s with timers := Assoc.erase timer s.timers }
    match s.slot? entry.slot with
    | none => (s, [])
    | some slot =>
      let s := s.setSlot entry.slot { slot with timer := none }
      if s.isCurrent entry.uri entry.slot then s.startRun entry.uri entry.slot else (s, [])

/-- What follows the end of a run.  A save or open has precedence over an edit, and a closing over
both. -/
def afterRun (s : State) (uri : String) (id : Nat) : State × List Effect :=
  match s.slot? id with
  | none => (s, [])
  | some slot =>
    let s :=
      if slot.closed && s.isCurrent uri id then { s with docs := Assoc.erase uri s.docs } else s
    if !s.isCurrent uri id then s.makeIdle id
    else if slot.rerunNow then s.startRun uri id
    else if slot.dirty then s.armTimer uri id
    else s.makeIdle id

def onEnded (s : State) (r : Nat) : State × List Effect :=
  match Assoc.get? r s.runs with
  | none => (s, [])
  | some run =>
    let s := { s with completed := s.completed + 1, runs := Assoc.erase r s.runs }
    match s.slot? run.slot with
    | none => (s, [])
    | some slot => (s.setSlot run.slot { slot with run := none }).afterRun run.uri run.slot

/-- Cancels what a slot has going and makes it idle.  The run itself stays in the list of runs until
its task has ended. -/
def stopSlot (s : State) (id : Nat) : State × List Effect :=
  let (s, out) := s.cancelTimer id
  let cancelled : List Effect :=
    match (s.slot? id).bind (·.run) with
    | some r => if Assoc.has r s.runs then [.cancelRun r] else []
    | none => []
  let (s, more) := s.makeIdle id
  (s, out ++ cancelled ++ more)

/-- Forgets all documents and cancels what they have going.  Documents are unregistered before their
runs are cancelled, so no run is started again when one of them ends. -/
def onStop (s : State) : State × List Effect :=
  let ids := s.docs.map (·.2)
  ids.foldl (fun (s, out) id => let (s, more) := s.stopSlot id; (s, out ++ more))
    ({ s with docs := [] }, [])

/-- The state after an event, and what is to be done.  Every event can happen in every state; one
that has become meaningless, such as the end of a run that is not known, changes nothing. -/
def step (s : State) : Event → State × List Effect
  | .change uri version text => s.onChange uri version text
  | .opened uri version text => s.onOpen uri version text
  | .save uri version text => s.onSave uri version text
  | .close uri => s.onClose uri
  | .fired timer => s.onFired timer
  | .ended r => s.onEnded r
  | .dropped r => ({ s with runs := Assoc.erase r s.runs }, [])
  | .stop => s.onStop

/-! ## Waiting and counting -/

/-- The slot whose idling is to be awaited before a document is idle; none if it is idle. -/
def busySlot? (s : State) (uri : String) : Option Nat :=
  match s.slotOf? uri with
  | some (id, slot) => if slot.phase = .idle then none else some id
  | none => none

/-- Adds a ticket to those that are raised when a slot becomes idle.  Nobody else knows of the
ticket, so it is raised once, when this slot becomes idle. -/
def awaitIdle (s : State) (id ticket : Nat) : State :=
  match s.slot? id with
  | none => s
  | some slot => s.setSlot id { slot with waiters := slot.waiters ++ [ticket] }

/-- The phases of the registered documents. -/
def phases (s : State) : List (String × Phase) :=
  s.docs.map fun e => (e.1, (s.slot? e.2).elim .idle (·.phase))

def pendingCount (s : State) : Nat :=
  s.phases.countP fun e => e.2 == .pending

def runningCount (s : State) : Nat :=
  s.phases.countP fun e => e.2 == .running

end State

end PikeAnalysis.Scheduler
