import Pipework.History.Summary

/-!
# Histories in memory

A shelf holds one summary for each run. It is a table by run and has no order
of its own: the order of this list is one that it may have, and another would
do as well. Listing sorts by start, newest first. In which order runs are
listed that started together is open, and so is which of them the limit cuts
off; nothing may rely on what comes out of this list.
-/

namespace Pipework

/-- Summaries, each run once, in any order. -/
abbrev Shelf := List RunSummary

namespace Shelf

/-- Saves a summary, in place of the one its run has. -/
def save (shelf : Shelf) (run : RunSummary) : Shelf :=
  run :: shelf.filter (·.id ≠ run.id)

/-- The summary of a run. -/
def load? (shelf : Shelf) (id : Uuid) : Option RunSummary :=
  shelf.find? (·.id = id)

/-- Does the summary belong to the pipeline asked for, if one is? -/
def matching (pipeline : Option String) (run : RunSummary) : Bool :=
  pipeline.all (run.pipeline == ·)

/-- Started no later than the other. -/
def newerFirst (a b : RunSummary) : Bool :=
  decide (b.startedAt.nanoseconds ≤ a.startedAt.nanoseconds)

/-- The newest summaries, of one pipeline or of all, up to a limit. Of runs that started together any
may come first. -/
def list (shelf : Shelf) (pipeline : Option String) (limit : UInt64) : List RunSummary :=
  ((shelf.filter (matching pipeline)).mergeSort newerFirst).take limit.toNat

/-- The names of the pipelines that have runs, sorted, each once. -/
def pipelines (shelf : Shelf) : List String :=
  ((shelf.map (·.pipeline)).mergeSort fun a b => decide (a ≤ b)).eraseReps

end Shelf

end Pipework
