import PikeAnalysis.Assoc
import PikeAnalysis.Bridge.Output
import PikeAnalysis.Bridge.Request
import PikeAnalysis.Clock
import PikeAnalysis.Failure
import PikeAnalysis.Json.Reader
import PikeAnalysis.Log
import PikeAnalysis.Wire.Payload

/-!
# The bridge to the worker

Requests and answers over one worker process at a time.  Each request, start and stop is a thread; a
thread runs until it waits, and its stage says what for.  There are two locks at which threads take
turns: workers are started and stopped under the one, and requests are written under the other.  A
worker that is gone, in whatever way that is noticed, is given up once, and with it every request
that was waiting for it.

A request is numbered and without an answer before it is written, so it can be answered, or given up
with its worker, while it still stands in line for the pipe or while the pipe does not take it.
That it could not be written may therefore be found out late, when somebody else has closed it
already; then it keeps the answer that it has, and only a request that is still open fails for want
of writing.

The machine only decides.  What is to be done to processes and waiting tasks is its output, and what
it has to know about the outside is an argument.  An attempt to start a process and an attempt to
write turn out at once or take time, in which case the thread that made it keeps the lock while it
waits.

The cases of `Stage` are all the places at which a thread can stand between two steps, so whatever
happens while somebody waits happens at one of them.  A cancellation is not a step of its own: it is
one way in which a wait can be over (`Resume`), and each stage says what it does then.  In the same
way a pipe that breaks late is how the wait for the pipe is over.

Functions that end in a decision about the thread whose step it is, such as `ask` or `startLocked`,
are composed with `thenDo`, and what they decide is put down as effects in order.  That order is the
one in which the outside carries them out, and claims about who was told what are claims about these
lists.
-/

namespace PikeAnalysis.Bridge

/-! ## State -/

/-- A worker process.  It is known by its place in the list of all workers, which is never used for
another one, so a late report about it cannot be mistaken for one about its successor. -/
structure Worker where
  pid : Int
  command : List String
  startedAt : Instant
  exitCode : Option Int := none
  deriving DecidableEq, Repr

/-- A request without an answer: its method and the worker that was in use when it was numbered, to
which it is or will be written.  It is kept under the number of the request, and the method goes
into the error that its caller gets. -/
structure Pending where
  method : String
  worker : Nat
  deriving DecidableEq, Repr

/-- What a thread is for.  A request starts a worker if there is none; the other two are for that
alone. -/
inductive Job where
  | request (method : String) (params : List (String × Json))
  | start
  | stop

/-- How starting a process turns out.  An executable that is not there is told apart from one that
the system refuses to run, since the error says which it was. -/
inductive Launch where
  | started (pid : Int)
  | notFound
  | refused (reason : String)
  deriving DecidableEq, Repr

/-- What a thread waits for.  The stages that keep the start lock are those in between a decision to
start or stop and its end; a thread in the queue of a lock keeps none. -/
inductive Stage where
  /-- Its turn to start or stop a worker. -/
  | queued (ticket : Nat)
  /-- The end of the readers of a worker that is gone, before a new one is started. -/
  | reaping
  /-- The start of a process that takes time: its command line, and how it will turn out. -/
  | launching (command : List String) (outcome : Launch)
  /-- Its turn to write the request that it has numbered. -/
  | lined (id worker ticket : Nat)
  /-- The pipe of a worker, which was full when the request was written to it. -/
  | writing (id worker : Nat)
  /-- The answer to its request. -/
  | answering (id : Nat)
  /-- The end of a worker that was told to end. -/
  | terminating (worker : Nat)
  /-- The end of a worker that was killed. -/
  | killing (worker : Nat)
  /-- The end of the readers of a worker that has ended. -/
  | draining
  deriving DecidableEq, Repr

/-- A thread between two steps.  The job is what it was begun for and does not change; the stage
says what it waits for now, and with it which locks it holds. -/
structure Thread where
  job : Job
  stage : Stage

/-- A lock that threads take turns at.  Who finds it taken draws a ticket, and tickets have their
turn in the order in which they were drawn. -/
structure Lock where
  held : Bool := false
  /-- The tickets of those who wait. -/
  queue : List Nat := []
  deriving DecidableEq, Repr

/-- The locks of the bridge: the one under which workers are started and stopped, and the one under
which requests are written. -/
inductive Gate where
  | start | write
  deriving DecidableEq, Repr

/-- The state of the bridge.  There is at most one worker in use, and the requests without an answer
are those of that worker. -/
structure State where
  /-- How many error lines are kept. -/
  recentMax : Nat := 5
  /-- Every worker ever started. -/
  workers : List Worker := []
  /-- The worker in use. -/
  current : Option Nat := none
  /-- The worker whose readers have not been told to end. -/
  readers : Option Nat := none
  nextId : Nat := 0
  pending : List (Nat × Pending) := []
  /-- The thread of each request that others can join, by the request's key. -/
  inflight : List (String × Nat) := []
  threads : List (Nat × Thread) := []
  startLock : Lock := {}
  writeLock : Lock := {}
  /-- The next ticket, at either lock. -/
  nextTicket : Nat := 0
  spawnError : Option SpawnFailure := none
  recentErrors : List String := []
  /-- How many workers have gone away. -/
  generation : Nat := 0
  /-- How many workers were started. -/
  spawns : Nat := 0

/-- How writing to a worker turns out.  A pipe that is full takes part of the request, and the rest
is written while the thread waits; the write lock is held for as long. -/
inductive Writing where
  | taken
  /-- The pipe is full, and whether it takes what was written is known later. -/
  | stalled
  | refused
  deriving DecidableEq, Repr

/-- What the bridge has to know about the outside.  It may be another one at each step. -/
structure Outside where
  now : Instant
  /-- The command line of the worker. -/
  command : Except SpawnFailure (List String)
  /-- How starting a process would turn out, -/
  launch : Launch
  /-- and whether that would be known only later. -/
  slow : Bool
  /-- How writing to a worker would turn out. -/
  write : Nat → Writing
  /-- Whether a ticket's holder has given up. -/
  abandoned : Nat → Bool

/-- What a thread waits for.  This is what the outside is told of a stage: what has to happen for
the thread to go on. -/
inductive Wait where
  | turn (ticket : Nat)
  | readers (worker : Nat)
  /-- The process that is being started. -/
  | launch
  /-- The pipe of a worker: that it takes what was written to it, or breaks. -/
  | pipe (worker : Nat)
  | answer (id : Nat)
  /-- The end of a worker, for as long as the grace period if there is one. -/
  | exit (worker : Nat) (graced : Bool)
  deriving DecidableEq, Repr

/-- How a thread ends.  The last two are of requests alone: the usual end, when an answer is there,
and the end of a request whose write failed. -/
inductive Outcome where
  | finished
  | failed (why : BridgeFailure)
  | cancelled
  /-- In the same way as the answer to a request. -/
  | answered (id : Nat)
  /-- Its request was not written, and nobody had closed it before. -/
  | unwritten (id : Nat) (why : BridgeFailure)

/-- What is to be done outside.  The order in a list of effects is the order in which they
happen. -/
inductive Effect where
  | waits (thread : Nat) (on : Wait)
  | ends (thread : Nat) (outcome : Outcome)
  /-- A thread's request has its number, and from now on it is without an answer. -/
  | register (thread worker : Nat) (request : Request)
  /-- A request is answered. -/
  | settle (id : Nat) (answer : Except BridgeFailure Json)
  /-- The holder of a ticket has its turn. -/
  | grant (ticket : Nat)
  /-- A request is written to a worker. -/
  | send (worker : Nat) (request : Request)
  /-- A process was to be started. -/
  | launched
  | startReaders (worker : Nat)
  | stopReaders (worker : Nat)
  /-- A worker is told to end. -/
  | terminate (worker : Nat)
  | kill (worker : Nat)
  | log (entry : LogEntry)

/-- How a wait is over.  Only a pipe can fail; what else is waited for is done then. -/
inductive Resume where
  | done | failed | timedOut | cancelled
  deriving DecidableEq, Repr

/-- What happens to the bridge.  Threads begin and go on, the worker prints and ends, and requests
that others can join come and go.  Threads are numbered by whoever begins them. -/
inductive Event where
  | begin (thread : Nat) (job : Job)
  /-- A request begins that others can join. -/
  | join (key : String) (thread : Nat)
  | resume (thread : Nat) (how : Resume)
  /-- A request that others could join is over. -/
  | forget (key : String) (thread : Nat)
  | stdoutLine (worker : Nat) (line : String)
  | stderrLine (worker : Nat) (line : String)
  /-- A worker's output has ended, and so has the worker. -/
  | stdoutEnded (worker : Nat)
  | exited (worker : Nat) (code : Int)

namespace State

/-- The state and what is to be done. -/
abbrev Step := State × List Effect

/-- Goes on after a step.  The effects of the first part come before those of the second. -/
def thenDo (s : Step) (f : State → Step) : Step :=
  let (t, more) := f s.1
  (t, s.2 ++ more)

def worker? (s : State) (w : Nat) : Option Worker :=
  s.workers[w]?

def exitCode? (s : State) (w : Nat) : Option Int :=
  (s.worker? w).bind (·.exitCode)

/-- Whether a worker has not ended as far as is known.  Its exit may not be known yet: then a
process that has ended counts as alive until somebody hears of it. -/
def isAlive (s : State) (w : Nat) : Bool :=
  (s.worker? w).any (·.exitCode.isNone)

/-- Whether the worker in use has not ended. -/
def isRunning (s : State) : Bool :=
  s.current.any s.isAlive

/-- Whether a request would reach a worker.  It is asked where nothing should be started for the
question alone, and is hopeful where no worker has been tried yet. -/
def isAvailable (s : State) : Bool :=
  s.isRunning || s.spawnError.isNone

/-! ## Threads -/

def wait (s : State) (t : Nat) (job : Job) (stage : Stage) (on : Wait) : Step :=
  ({ s with threads := Assoc.set t { job, stage } s.threads }, [.waits t on])

def finish (s : State) (t : Nat) (outcome : Outcome) : Step :=
  ({ s with threads := Assoc.erase t s.threads }, [.ends t outcome])

/-! ## The locks -/

def lock (s : State) : Gate → Lock
  | .start => s.startLock
  | .write => s.writeLock

def setLock (s : State) (g : Gate) (l : Lock) : State :=
  match g with
  | .start => { s with startLock := l }
  | .write => { s with writeLock := l }

/-- Gives the first in the queue its turn.  A ticket that has been given the turn stays in the queue
until its holder goes on. -/
def wakeFirst (s : State) (g : Gate) : Step :=
  (s, (s.lock g).queue.head?.toList.map .grant)

def take (s : State) (g : Gate) : State :=
  s.setLock g { s.lock g with held := true }

/-- Gives a lock back.  Whoever is first in the queue is told; he takes the lock when he goes on,
and until then nobody else finds it free. -/
def release (s : State) (g : Gate) : Step :=
  (s.setLock g { s.lock g with held := false }).wakeFirst g

/-- Whether a lock can be taken without waiting.  It is not if anybody is before one in the queue,
unless all of those have given up. -/
def isFree (env : Outside) (s : State) (g : Gate) : Bool :=
  !(s.lock g).held && (s.lock g).queue.all env.abandoned

/-- Puts a new ticket at the end of the queue. -/
def draw (s : State) (g : Gate) : State :=
  { s.setLock g { s.lock g with queue := (s.lock g).queue ++ [s.nextTicket] } with
    nextTicket := s.nextTicket + 1 }

/-- Takes a ticket out of the queue. -/
def leaveQueue (s : State) (g : Gate) (n : Nat) : State :=
  s.setLock g { s.lock g with queue := (s.lock g).queue.filter (· != n) }

/-- Takes a lock and goes on, or queues for it; `stage` is what a thread with a ticket waits in. -/
def acquire (env : Outside) (s : State) (g : Gate) (t : Nat) (job : Job) (stage : Nat → Stage)
    (go : State → Step) : Step :=
  if s.isFree env g then go (s.take g)
  else (s.draw g).wait t job (stage s.nextTicket) (.turn s.nextTicket)

/-- Goes on with the lock when the wait for the turn is over.  Who gives up passes the turn on if
nobody has the lock.  The turn may have come and the holder may have given up at once; then the next
in the queue has to be told. -/
def enter (s : State) (g : Gate) (t n : Nat) (how : Resume) (go : State → Step) : Step :=
  let s := s.leaveQueue g n
  if how = .cancelled then
    thenDo (if (s.lock g).held then (s, []) else s.wakeFirst g) fun s => s.finish t .cancelled
  else go (s.take g)

/-- Gives a lock back and ends as cancelled. -/
def giveUp (s : State) (g : Gate) (t : Nat) : Step :=
  thenDo (s.release g) fun s => s.finish t .cancelled

/-! ## Giving a worker up -/

/-- Fails every request without an answer.  Each is told with an error that names its own method. -/
def rejectPending (s : State) (why : String → BridgeFailure) : Step :=
  ({ s with pending := [] },
    s.pending.map fun e => .settle e.1 (.error (why e.2.method)))

/-- Gives up the worker in use.  From now on it is not in use, and the generation tells everyone who
remembers it that what he knows may be out of date. -/
def detach (s : State) : State :=
  { s with current := none, generation := s.generation + 1 }

/-- Gives up a worker that is gone, if it is still in use.  A report about a worker that is no
longer in use changes nothing, whoever made it. -/
def crash (s : State) (w : Nat) (why : String → BridgeFailure) : Step :=
  if s.current = some w then
    thenDo (s.detach, [.log ⟨.warning, "bridge_crashed"⟩]) (·.rejectPending why)
  else (s, [])

/-! ## Requests -/

/-- Ends a request that could not be written: it fails, unless somebody has closed it.  A request
that was closed meanwhile goes on with the answer that it has been given. -/
def unwritten (s : State) (t id w : Nat) (method : String) : Step :=
  if Assoc.has id s.pending then
    { s with pending := Assoc.erase id s.pending }.finish t
      (.unwritten id (.exited (s.exitCode? w) (some method)))
  else s.finish t (.answered id)

/-- Waits for the answer to a request that has been written; the write lock is given back. -/
def written (s : State) (t : Nat) (job : Job) (id : Nat) : Step :=
  thenDo (s.release .write) fun s => s.wait t job (.answering id) (.answer id)

/-- Writes a request that is numbered; the write lock is held.  A pipe that is known to be broken
refuses at once, and that ends the request as a late failure would. -/
def write (env : Outside) (s : State) (t : Nat) (job : Job) (id w : Nat) : Step :=
  match job with
  | .request method params =>
    match env.write w with
    | .taken => thenDo (s, [.send w { id, method, params }]) fun s => s.written t job id
    | .stalled =>
      thenDo (s, [.send w { id, method, params }]) fun s => s.wait t job (.writing id w) (.pipe w)
    | .refused => thenDo (s.release .write) fun s => s.unwritten t id w method
  | _ => thenDo (s.release .write) fun s => s.finish t .finished

/-- Goes on with a request when the pipe has taken it or broken.  In every case the write lock is
given back.  Whoever gives up here leaves his request without an answer, and a line that answers it
later finds nobody. -/
def pipeOver (s : State) (t : Nat) (job : Job) (id w : Nat) (how : Resume) : Step :=
  match how, job with
  | .cancelled, _ => s.giveUp .write t
  | .failed, .request method _ => thenDo (s.release .write) fun s => s.unwritten t id w method
  | _, _ => s.written t job id

/-- Numbers a request to the worker in use, and writes it once it has its turn.  It is without an
answer from then on, although nothing has been written. -/
def ask (env : Outside) (s : State) (t : Nat) (job : Job) (method : String)
    (params : List (String × Json)) : Step :=
  match s.current with
  | none => s.finish t .finished
  | some w =>
    let id := s.nextId + 1
    thenDo ({ s with
        nextId := id
        pending := Assoc.set id { method, worker := w } s.pending },
      [.register t w { id, method, params }]) fun s =>
        s.acquire env .write t job (.lined id w) fun s => s.write env t job id w

/-- Goes on with a thread once a worker is there.  A request is numbered at once, without any wait
in between, so it cannot be that the worker has gone again by then. -/
def started (env : Outside) (s : State) (t : Nat) (job : Job) : Step :=
  match job with
  | .request method params => s.ask env t job method params
  | _ => s.finish t .finished

/-! ## Starting -/

/-- Records that a worker cannot be started; only news is logged. -/
def spawnFailed (s : State) (t : Nat) (why : SpawnFailure) : Step :=
  let news : List Effect :=
    if s.spawnError = some why then [] else [.log ⟨.error, "bridge_spawn_failed"⟩]
  thenDo (thenDo ({ s with spawnError := some why }, news) (·.release .start)) fun s =>
    s.finish t (.failed (.spawn why))

/-- Goes on when it is known how the start of a process turned out; the start lock is held. -/
def launched (env : Outside) (s : State) (t : Nat) (job : Job) (command : List String) :
    Launch → Step
  | .notFound => s.spawnFailed t (.executableMissing (command.headD ""))
  | .refused reason => s.spawnFailed t (.refused (command.headD "") reason)
  | .started pid =>
    let w := s.workers.length
    let s := { s with
      workers := s.workers ++ [{ pid, command, startedAt := env.now }]
      current := some w
      readers := some w
      spawns := s.spawns + 1
      spawnError := none }
    thenDo (thenDo (s, [.startReaders w]) (·.release .start)) fun s => s.started env t job

/-- Starts a process; the start lock is held, also for as long as the start takes. -/
def spawn (env : Outside) (s : State) (t : Nat) (job : Job) : Step :=
  match env.command with
  | .error why => s.spawnFailed t why
  | .ok command =>
    thenDo (s, [.launched]) fun s =>
      if env.slow then s.wait t job (.launching command env.launch) .launch
      else s.launched env t job command env.launch

/-- Starts a worker unless one is running; the start lock is held.  A worker that has ended without
anybody noticing is given up first.  Its readers are ended before its successor is started. -/
def startLocked (env : Outside) (s : State) (t : Nat) (job : Job) : Step :=
  if s.isRunning then thenDo (s.release .start) fun s => s.started env t job
  else
    match s.current with
    | none => s.spawn env t job
    | some w =>
      let code := s.exitCode? w
      thenDo (s.crash w fun method => .exited code (some method)) fun s =>
        match s.readers with
        | none => s.spawn env t job
        | some r =>
          thenDo ({ s with readers := none }, [.stopReaders r]) fun s =>
            s.wait t job .reaping (.readers r)

/-! ## Stopping -/

/-- Ends a stop; the start lock is held. -/
def stopped (s : State) (t : Nat) : Step :=
  thenDo (s.release .start) fun s => s.finish t .finished

/-- Ends the readers of a worker that has ended; the start lock is held.  They may still be reading
what the worker printed last. -/
def drain (s : State) (t : Nat) : Step :=
  match s.readers with
  | none => s.stopped t
  | some r =>
    thenDo ({ s with readers := none }, [.stopReaders r]) fun s =>
      s.wait t .stop .draining (.readers r)

/-- Gives up the worker in use and tells it to end; the start lock is held.  Every request without
an answer fails at this moment, before anything is waited for. -/
def stopLocked (s : State) (t : Nat) : Step :=
  match s.current with
  | none => s.stopped t
  | some w =>
    thenDo (s.detach.rejectPending .stopped) fun s =>
      if s.isAlive w then
        thenDo (s, [.terminate w]) fun s => s.wait t .stop (.terminating w) (.exit w true)
      else s.drain t

/-! ## Threads -/

/-- What a thread does once it has the start lock.  Why it wanted the lock is looked up again only
now: a worker may have come or gone since it queued. -/
def haveLock (env : Outside) (s : State) (t : Nat) (job : Job) : Step :=
  match job with
  | .stop => s.stopLocked t
  | job => s.startLocked env t job

/-- Starts or stops a worker under the start lock. -/
def startOrStop (env : Outside) (s : State) (t : Nat) (job : Job) : Step :=
  s.acquire env .start t job .queued fun s => s.haveLock env t job

/-- Begins a thread.  A request needs a worker; where none could be started none is tried again.
That is looked up before the thread queues for the lock, and not again. -/
def begin (env : Outside) (s : State) (t : Nat) (job : Job) : Step :=
  match job with
  | .request method params =>
    if s.isRunning then s.ask env t job method params
    else
      match s.spawnError with
      | some why => s.finish t (.failed (.spawn why))
      | none => s.startOrStop env t job
  | job => s.startOrStop env t job

/-- Goes on with a thread whose wait is over.  Each stage has one place to go on from, and a thread
that is cancelled gives back what it holds.  A thread that is not known has ended, and nothing
happens. -/
def resume (env : Outside) (s : State) (t : Nat) (how : Resume) : Step :=
  match Assoc.get? t s.threads with
  | none => (s, [])
  | some thread =>
    match thread.stage with
    | .queued n => s.enter .start t n how fun s => s.haveLock env t thread.job
    | .reaping => if how = .cancelled then s.giveUp .start t else s.spawn env t thread.job
    | .launching command outcome =>
      if how = .cancelled then s.giveUp .start t
      else s.launched env t thread.job command outcome
    | .lined id w n => s.enter .write t n how fun s => s.write env t thread.job id w
    | .writing id w => s.pipeOver t thread.job id w how
    | .answering id => s.finish t (if how = .cancelled then .cancelled else .answered id)
    | .terminating w =>
      match how with
      | .cancelled => s.giveUp .start t
      | .timedOut =>
        thenDo (s, [.log ⟨.warning, "worker_kill_after_grace"⟩, .kill w]) fun s =>
          s.wait t thread.job (.killing w) (.exit w false)
      | _ => s.drain t
    | .killing _ => if how = .cancelled then s.giveUp .start t else s.drain t
    | .draining => if how = .cancelled then s.giveUp .start t else s.stopped t

/-! ## What the worker says -/

/-- The whole number that identifies an answer; a flag counts as zero or one. -/
def answerId? (payload : Json) : Option Int :=
  match payload.field? "id" with
  | some (.int n) => some n
  | some (.bool b) => some (if b then 1 else 0)
  | _ => none

/-- What a line answers to a request of a method.  A line of the wrong shape is an answer all the
same: it rejects the caller whose number it carries. -/
def answerOf (method : String) (payload : Json) : Except BridgeFailure Json :=
  match Wire.Model.response.read payload with
  | .error issue => .error (.malformed method issue.message)
  | .ok v =>
    match v.objectAt? "error" with
    | some e => .error (.rejected method (e.textAt "message") (e.intAt? "code"))
    | none => .ok ((v.field? "result").getD .null)

/-- The request without an answer that a line answers, and the line's payload.  What is no JSON,
carries no number, or carries one that nobody waits for, answers nothing. -/
def answered? (s : State) (line : String) : Option (Nat × Pending × Json) := do
  let payload ← Json.read? line.toList
  let id ← answerId? payload
  if id < 0 then none
  else
    let entry ← Assoc.get? id.toNat s.pending
    some (id.toNat, entry, payload)

/-- A line of the worker's output answers a request or says nothing.  A line that is no answer, or
carries a number that is not waited for, changes nothing. -/
def stdoutLine (s : State) (line : String) : Step :=
  match s.answered? line with
  | none => (s, [])
  | some (id, entry, payload) =>
    ({ s with pending := Assoc.erase id s.pending },
      [.settle id (answerOf entry.method payload)])

/-- Keeps an error line, the oldest giving way. -/
def remember (s : State) (line : String) : State :=
  let lines := s.recentErrors ++ [line]
  { s with recentErrors := lines.drop (lines.length - s.recentMax) }

/-- A line of the worker's error stream.  One that announces the worker's end is its end.  Two tests
are made one after the other, and a line that passes both is kept twice. -/
def stderrLine (s : State) (w : Nat) (line : String) : Step :=
  let s := if Text.containsLowered "error" line.toList then s.remember line else s
  if isFatalLine line then
    let s := s.remember line
    thenDo (s, if s.isAlive w then [.kill w] else []) fun s => s.crash w fun _ => .fatalOutput line
  else (s, [])

/-- The end of a worker's output.  It comes from the reader of the worker's output and gives the
worker up, if it is still in use. -/
def stdoutEnded (s : State) (w : Nat) : Step :=
  let code := s.exitCode? w
  s.crash w fun method => .exited code (some method)

/-- The end of a worker, which may not be noticed yet.  The worker stays in use until somebody asks
whether it has ended. -/
def exited (s : State) (w : Nat) (code : Int) : State :=
  match s.worker? w with
  | none => s
  | some worker => { s with workers := s.workers.set w { worker with exitCode := some code } }

/-! ## Events -/

/-- The state after an event, and what is to be done.  The worker that printed a line of output is
of no account: lines are matched to requests by their number alone. -/
def step (env : Outside) (s : State) : Event → Step
  | .begin t job => s.begin env t job
  | .join key t => ({ s with inflight := Assoc.set key t s.inflight }, [])
  | .resume t how => s.resume env t how
  | .forget key t =>
    (if Assoc.get? key s.inflight = some t then
      { s with inflight := Assoc.erase key s.inflight } else s, [])
  | .stdoutLine _ line => s.stdoutLine line
  | .stderrLine w line => s.stderrLine w line
  | .stdoutEnded w => s.stdoutEnded w
  | .exited w code => (s.exited w code, [])

end State

end PikeAnalysis.Bridge
