import PikeAnalysis.Cli.Command
import PikeAnalysis.Simulation.Session

/-!
# Simulated commands

Runs a command line with a scripted worker.  Time passes by itself, just as far as the command
waits.

A command that needs the engine says so as a plan: the settings, the call to make, and what to print
once the call has ended.  The run makes a session for these settings, makes the call in it and lets
it go on until the call is over.  A budget that is endless cannot be turned into a number of bytes,
and then there is no engine to make the call in.
-/

namespace PikeAnalysis.Simulation

/-- The engine with a scripted worker, unless a budget is endless. -/
def Session.ofSettings? (settings : Config.Settings) (host : Host) (sink : Engine.Sink)
    (script : Script) : Option Session := do
  let typedb ← settings.typedbBudget
  let stdlib ← settings.stdlibBudget
  return { machine := { state := Engine.State.initial settings typedb stdlib host sink }, script }

/-- What a run of a command line leaves behind. -/
structure CommandRun where
  outcome : Cli.Outcome
  sent : List Bridge.Request := []
  launched : List Launched := []

/-- Runs a plan.  The engine is called once and followed until nothing happens any more; what was
sent and launched on the way is kept. -/
def runPlan (host : Host) (script : Script) : Cli.Plan → CommandRun
  | .ended o => { outcome := o }
  | .run announced settings call finish =>
    match Session.ofSettings? settings host .absent script with
    | none => { outcome := (Cli.crashed .endlessBudget).after announced }
    | some s =>
      let (s, task) := s.call call
      let s := s.complete task Session.settleFuel
      let outcome :=
        match s.ending? task with
        | some (.value v) => finish (.ok v)
        | some (.error e) => finish (.error e)
        | _ => {}
      { outcome := outcome.after announced, sent := s.sent, launched := s.launched }

/-- Runs a command line. -/
def runCommandLine (setting : Cli.Setting) (script : Script) (args : List String) : CommandRun :=
  runPlan setting.host script (Cli.start setting args)

end PikeAnalysis.Simulation
