import PikeAnalysis.Engine.Run
import PikeAnalysis.Program.Database
import PikeAnalysis.Report.Symbols
import PikeAnalysis.Stdlib.Index

/-!
# Reports on the engine

Documents and programs, how full the stores are, what the engine answers, and how it is, as JSON
values.

What a caller of the engine gets back, as values that can be compared: the answer of a call, how
full each store is, and the state of the worker.  Sizes are those that the stores keep themselves;
nothing is counted anew here, so that a wrong count shows.
-/

namespace PikeAnalysis.Report

/-! ## Stores -/

/-- Diagnostics in order. -/
def diagnostics (ds : List Diagnostic) : Json :=
  .arr (ds.map (·.toJson))

/-- A document that has been validated. -/
def document (e : DocumentEntry) : Json :=
  .obj [("uri", .str e.uri), ("version", .int e.version),
    ("symbols", .arr (symbols e.table.roots)), ("diagnostics", diagnostics e.diagnostics),
    ("positions", positions e.positions), ("text", .str e.text)]

/-- A compiled program; its imports are listed in order. -/
def program (p : ProgramInfo) : Json :=
  let names (index : List (String × Symbol)) : Json := texts (index.map (·.1))
  .obj [("uri", .str p.uri), ("version", .int p.version), ("symbols", indexed p.symbols),
    ("functions", names p.functions), ("variables", names p.globals),
    ("classes", names p.classes), ("inherits", texts p.inherits),
    ("imports", texts (p.imports.mergeSort fun a b => decide (a ≤ b))),
    ("size_bytes", .int p.sizeBytes)]

/-- How full the type database is. -/
def database (db : TypeDatabase) : Json :=
  let s := db.stats
  .obj [("program_count", .int s.programCount), ("open_count", .int s.openCount),
    ("symbol_count", .int s.symbolCount), ("total_bytes", .int s.totalBytes),
    ("budget_bytes", .int s.budgetBytes), ("evictions", .int s.evictions),
    ("utilization_percent", .float s.utilization)]

/-- How full the index of the standard library is, and how often it was of use. -/
def stdlib (x : StdlibIndex) : Json :=
  .obj [("module_count", .int x.modules.length), ("symbol_count", .int x.symbolCount),
    ("memory_bytes", .int x.memory), ("negative_count", .int x.failures.length),
    ("hits", .int x.hits), ("misses", .int x.misses), ("negative_hits", .int x.negativeHits),
    ("evictions", .int x.evictions)]

/-! ## The engine -/

/-- The health of the bridge. -/
def bridge (h : Engine.BridgeHealth) : Json :=
  .obj [
    ("running", .bool h.running), ("pid", Json.ofInt? h.pid),
    ("uptime_sec", .float (Float.ofInt h.uptime / 1000000)), ("restarts", .int h.restarts),
    ("generation", .int h.generation), ("pending", .int h.pending),
    ("recent_errors", texts h.recentErrors), ("executable", .str h.executable),
    ("analyzer_path", Json.ofText? h.analyzerPath), ("spawn_error", Json.ofText? h.spawnError)]

/-- The health of all parts. -/
def health (e : Engine.State) : Json :=
  let m := e.scheduler.machine
  .obj [
    ("bridge", bridge (Engine.bridgeHealth e)),
    ("scheduler", .obj [("pending", .int m.pendingCount), ("running", .int m.runningCount),
      ("runs_completed", .int m.completed)]),
    ("documents", .int e.stores.documents.size), ("typedb", database e.stores.programs),
    ("stdlib", stdlib e.stdlib), ("validations_completed", .int e.stores.completed)]

/-- Where every part stands, in short.  Only counts and versions are in it, so two engines that
report the same need not be the same. -/
def state (e : Engine.State) : Json :=
  .obj [
    ("bridge", .arr [.bool e.bridge.isRunning, .int e.bridge.generation,
      .int e.bridge.pending.length, .int (e.bridge.spawns - 1 : Nat),
      .bool e.bridge.isAvailable]),
    ("docs", .arr (e.stores.documents.all.map fun d => .arr [.str d.uri, .int d.version])),
    ("programs", .arr (e.stores.programs.all.map fun p => .arr [.str p.uri, .int p.version])),
    ("slots", .arr (e.scheduler.machine.phases.map fun p => .arr [.str p.1, .str p.2.text])),
    ("runs", .arr [.int e.scheduler.machine.completed, .int e.stores.completed])]

/-- What comes of a call.  Values that only an outer layer looks at are reported as null. -/
def value : Engine.Value → Json
  | .nothing | .checked _ | .report .. | .described .. | .taken _ => .null
  | .json v => v
  | .count n => .int n
  | .version v => Json.ofText? v
  | .module m => m.elim .null module
  | .diagnostics ds => ds.elim .null diagnostics
  | .lookup l => .obj [("symbol", resolved? l.symbol), ("warnings", warnings l.warnings)]
  | .resolution r => .obj [("symbols", offered r), ("warnings", warnings r.warnings)]
  | .source found r =>
    .obj [("found", resolved? found), ("visible", offered r), ("warnings", warnings r.warnings)]
  | .context c => context c
  | .positions index => positions index

end PikeAnalysis.Report
