import Suballoc.Engine

/-!
# Reports

Two views of an engine for an observer: a short summary of its counters, and a full report with a
name for every entry. Some entries are differences and products; a checked build may fault on them,
and then there is no report.
-/

namespace Suballoc

/-- What every allocator reports about its bytes. -/
def Usage.entries (build : Build) (usage : Usage) : Except Fault (List (String × Value)) := do
  return [("total_size", .number usage.total), ("used_size", .number usage.used),
    ("available_size", .number (← usage.available build)),
    ("utilization", .share usage.utilization)]

namespace Engine

/-- The counters of an engine. -/
def summary (build : Build) : Engine → Except Fault (List Value)
  | .pool p => do
    return [.number p.allocated, .number (← p.available build)]
  | .sharedPool p => return [.number p.allocated, .number p.peak]
  | .stack state => return [.number state.stack.cursor, .number state.stack.peak]
  | .freeList list => do
    return [.number list.used, .number list.allocations, .number list.blockCount,
      .number list.largest, .share (← list.fragmentation build)]
  | .region r => return [.number r.size, .number r.alignment]

/-- What an engine of its kind reports beside that. -/
def ownEntries (build : Build) : Engine → Except Fault (List (String × Value))
  | .pool p => do
    return [("capacity", .number p.capacity), ("block_size", .number p.blockSize),
      ("allocated", .number p.allocated), ("available", .number (← p.available build)),
      ("is_full", .flag p.isFull), ("is_empty", .flag p.isEmpty)]
  | .sharedPool p =>
    return [("capacity", .number p.capacity), ("block_size", .number p.blockSize),
      ("allocated", .number p.allocated), ("peak_allocated", .number p.peak),
      ("is_full", .flag p.isFull), ("strategy", .text p.strategy.text),
      ("debug", .text p.record.inline), ("debug_pretty", .text p.record.indented)]
  | .stack state => do
    return [("capacity", .number state.stack.capacity), ("used", .number state.stack.cursor),
      ("available", .number (← state.stack.available build)),
      ("high_water_mark", .number state.stack.peak)]
  | .freeList list => do
    return [("capacity", .number list.capacity), ("used", .number list.used),
      ("available", .number (← list.available build)),
      ("allocation_count", .number list.allocations), ("strategy", .text list.strategy.text),
      ("free_block_count", .number list.blockCount), ("largest_free_block", .number list.largest),
      ("fragmentation", .share (← list.fragmentation build))]
  | .region r =>
    return [("size", .number r.size), ("alignment", .number r.alignment),
      ("start_addr", .number 0), ("end_addr", .number (r.stop - r.base))]

/-- Everything an engine can tell about itself. -/
def report (build : Build) (engine : Engine) : Except Fault (List (String × Value)) := do
  let common ←
    match engine.usage? build, engine.capabilities? with
    | some usage, some capabilities => do
      let entries ← (← usage).entries build
      pure (entries ++
        [("capabilities", .capabilities capabilities), ("type_name", .text engine.typeName)])
    | _, _ => pure []
  return common ++ (← engine.ownEntries build)

end Engine

end Suballoc
