import PikeAnalysis.Concurrency.Tasks

/-!
# Running tasks

The loop together with what its tasks still have to do.  A round runs everything that is ready;
rounds follow one another until nothing is.  Time does not pass in a round.

A state contains the loop and whatever else a program has; the machine adds the rests of the tasks
that wait.  Those are functions, so they are kept out of the state, which can then be compared and
shown.

Everything that can be done is one of the cases of `Ready`, and `runReady` does it.  A turn of a
task (`proceed`) notes whose turn it is, runs the routine as far as it goes, and then either ends
the task or puts it to sleep.  A round takes what is ready when it begins, so what becomes ready in
it has to wait for the next round.  A task that waits for a signal which has been raised already
does not give up its turn.

The number of rounds in `settle` is bounded by fuel; what is proved of a machine is proved of every
round, and of every order in which the things of a round could be done, so nothing depends on the
bound being large enough.
-/

namespace PikeAnalysis.Concurrency

variable {σ ε ν κ η : Type} [HasLoop σ κ η ε ν]

/-- What jobs and hooks do.  These are all the loop does not know: the program of each job, and what
each hook changes. -/
structure Rules (σ ε ν κ η : Type) where
  body : κ → Routine σ ε ν κ ν
  hook : η → σ → σ

/-- What a task does once what it waits for has happened.  It is handed the way in which that has
ended. -/
abbrev Rest (σ ε ν κ : Type) := Ending ε ν → Routine σ ε ν κ ν

/-- A state, and what each waiting task still has to do.  A task that is ready to start is not among
them: it runs the body of its job from the beginning. -/
structure Machine (σ ε ν κ : Type) where
  state : σ
  suspended : List (Nat × Rest σ ε ν κ) := []

/-- Where a routine stops.  It has come to its end, or to a signal that has not been raised yet,
after which it goes on or starts over. -/
inductive Stop (σ ε ν κ : Type) where
  | ended (e : Ending ε ν)
  | waits (signal : Signal) (rest : Rest σ ε ν κ)
  | renews (signal : Signal) (job : κ)

/-- What a task does that starts over as a job after a wait.  It is what a loop without end is made
of: the routine of a job is a finite tree, and starting over is a leaf of it. -/
def Rules.renewed (r : Rules σ ε ν κ η) (job : κ) : Rest σ ε ν κ
  | .value _ => r.body job
  | .error e => .fail e
  | .cancelled => .cancelled

namespace Machine

/-- Runs a routine as far as it goes.  Signals that have been raised are not waited for. -/
def runRoutine : Routine σ ε ν κ ν → σ → σ × Stop σ ε ν κ
  | .done a, s => (s, .ended (.value a))
  | .fail e, s => (s, .ended (.error e))
  | .cancelled, s => (s, .ended .cancelled)
  | .get k, s => runRoutine (k s) s
  | .set s next, _ => runRoutine next s
  | .wait signal k, s =>
    match (HasLoop.loop s).ending? signal with
    | some e => runRoutine (k e) s
    | none => (s, .waits signal k)
  | .renew signal job, s => (s, .renews signal job)

def loop (m : Machine σ ε ν κ) : Loop κ η ε ν :=
  HasLoop.loop m.state

def updateLoop (m : Machine σ ε ν κ) (f : Loop κ η ε ν → Loop κ η ε ν) : Machine σ ε ν κ :=
  { m with state := HasLoop.update m.state f }

/-- Makes a task wait.  A task that is to be cancelled cancels what it starts to wait for. -/
def suspend (l : Loop κ η ε ν) (t : Nat) (signal : Signal) : Loop κ η ε ν :=
  match l.task? t with
  | none => l
  | some st =>
    let l := (l.setTask t { st with waiting := some signal, mustCancel := false }).follow signal
      (.resume t)
    if st.mustCancel then
      match signal with
      | .ended other => (l.cancel other).1
      | s => l.raise s .cancelled
    else l

/-- Ends a task; one that is to be cancelled ends so unless it fails.  A mark that came in its last
turn would otherwise be lost. -/
def conclude (l : Loop κ η ε ν) (t : Nat) (e : Ending ε ν) : Loop κ η ε ν :=
  let marked := (l.task? t).any (·.mustCancel)
  match e with
  | .value _ => l.finish t (if marked then .cancelled else e)
  | e => l.finish t e

/-- Runs what a task does next, until it waits or ends.  The current task is noted first, since time
limits and locks ask for it. -/
def proceed (r : Rules σ ε ν κ η) (m : Machine σ ε ν κ) (t : Nat) (routine : Routine σ ε ν κ ν) :
    Machine σ ε ν κ :=
  let m := m.updateLoop fun l => { l with current := t }
  let (s, stop) := runRoutine routine m.state
  let m := { m with state := s }
  match stop with
  | .ended e => m.updateLoop fun l => conclude l t e
  | .waits signal rest =>
    { m with suspended := (t, rest) :: m.suspended }.updateLoop fun l => suspend l t signal
  | .renews signal job =>
    { m with suspended := (t, r.renewed job) :: m.suspended }.updateLoop fun l => suspend l t signal

/-- Starts a task.  A task that was cancelled before it has begun ends without having done
anything. -/
def startTask (r : Rules σ ε ν κ η) (m : Machine σ ε ν κ) (t : Nat) : Machine σ ε ν κ :=
  match m.loop.task? t with
  | none => m
  | some st =>
    if st.mustCancel then m.updateLoop fun l => l.finish t .cancelled
    else m.proceed r t (r.body st.job)

/-- Goes on with a task after what it waited for.  If it has been marked meanwhile it sees a
cancellation, whatever the signal has ended with. -/
def resumeTask (r : Rules σ ε ν κ η) (m : Machine σ ε ν κ) (t : Nat) (signal : Signal) :
    Machine σ ε ν κ :=
  match m.loop.task? t, Assoc.get? t m.suspended with
  | some st, some rest =>
    let ending : Ending ε ν :=
      if st.mustCancel then .cancelled
      else (m.loop.ending? signal).getD .cancelled
    let m := { m with suspended := Assoc.erase t m.suspended }.updateLoop fun l =>
      l.setTask t { st with waiting := none, mustCancel := false }
    m.proceed r t (rest ending)
  | _, _ => m

/-- Does what a timer is for, unless it has been cancelled.  A limit that has been exceeded is
noted, so that the routine under it can tell this cancellation from any other. -/
def fireTimer (l : Loop κ η ε ν) (unit : ν) (id : Nat) : Loop κ η ε ν :=
  match Assoc.get? id l.live with
  | none => l
  | some action =>
    let l := l.stopTimer id
    match action with
    | .raise s => l.raise s (.value unit)
    | .expire t => ({ l with expired := id :: l.expired }.cancel t).1

/-- Does one thing that is ready.  Only a start and a resumption run a routine; the other followers
change signals or the state in one step. -/
def runReady (r : Rules σ ε ν κ η) (m : Machine σ ε ν κ) : Ready η → Machine σ ε ν κ
  | .start t => m.startTask r t
  | .timer id => m.updateLoop fun l => fireTimer l (HasLoop.unit σ) id
  | .follow (.resume t) signal => m.resumeTask r t signal
  | .follow (.relay s) signal =>
    m.updateLoop fun l => l.raise s ((l.ending? signal).getD .cancelled)
  | .follow (.part n) _ => m.updateLoop fun l => l.countPart (HasLoop.unit σ) n
  | .follow (.hook h) _ => { m with state := r.hook h m.state }

/-- Runs everything that is ready, timers that are due included.  The items are those that were
ready when the round began; the timers that are due come behind the rest. -/
def round (r : Rules σ ε ν κ η) (m : Machine σ ε ν κ) : Machine σ ε ν κ :=
  let m := m.updateLoop fun l =>
    let l := l.dropCancelled l.timers.size
    l.takeDue l.timers.size
  let items := m.loop.ready
  items.foldl (runReady r) (m.updateLoop fun l => { l with ready := [] })

/-- Whether anything is ready or due. -/
def isBusy (m : Machine σ ε ν κ) : Bool :=
  let l := m.loop
  !l.ready.isEmpty || l.nextDue?.any (· ≤ l.now)

/-- Runs rounds until nothing is ready. -/
def settle (r : Rules σ ε ν κ η) : Nat → Machine σ ε ν κ → Machine σ ε ν κ
  | 0, m => m
  | fuel + 1, m => if m.isBusy then settle r fuel (m.round r) else m

end Machine

end PikeAnalysis.Concurrency
