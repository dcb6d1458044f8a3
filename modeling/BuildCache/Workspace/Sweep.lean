import BuildCache.Workspace.Tracking

/-!
# Sweeps

A sweep evicts the files that are gone, and the files that depend on something that is gone or was
evicted, however many steps away. Only what is confirmed absent counts as gone.
-/

namespace BuildCache

/-- What a sweep evicted, in order, and in how many passes. -/
structure SweepReport where
  evicted : List Path
  passes : Nat
deriving DecidableEq

/-- Dependencies whose dependents are still to be evicted, and what was evicted so far. -/
structure Cascade where
  pending : List Path
  evicted : List Path
deriving DecidableEq

/-- Whether it is certain that nothing is there. -/
def FileTree.isMissing (t : FileTree) (p : Path) : Bool :=
  match t.exists? p with
  | .ok found => !found
  | .error _ => false

namespace Workspace

/-- Evicts those of the files that are gone. -/
def evictMissing : List Path → StateM Workspace (List Path)
  | [] => return []
  | file :: rest => do
    let evicted ← if (← currentFiles).isMissing file then evict file else pure false
    let others ← evictMissing rest
    return if evicted then file :: others else others

/-- Evicts the dependents of what is pending, and in turn theirs, in at most `n` steps. -/
def cascade : Nat → Cascade → StateM Workspace Cascade
  | 0, c => return c
  | _ + 1, ⟨[], evicted⟩ => return ⟨[], evicted⟩
  | n + 1, ⟨dependency :: pending, evicted⟩ => do
    let files ← evictDependents dependency
    cascade n ⟨pending ++ files, evicted ++ files⟩

/-- Evicts what is gone and all that depends on it. Each step takes one path off the pending ones,
and each path put there was tracked, so the steps suffice. -/
def sweepOnce : StateM Workspace (List Path) := do
  let gone ← evictMissing (← tracked)
  let missing := (← dependencies).filter (← currentFiles).isMissing
  let pending := gone ++ missing
  let c ← cascade (pending.length + (← ids).size) ⟨pending, gone⟩
  return c.evicted

/-- Sweeps until a pass evicts nothing, in at most `n` passes. -/
def sweepPasses : Nat → SweepReport → StateM Workspace SweepReport
  | 0, report => return report
  | n + 1, report => do
    let evicted ← sweepOnce
    let report : SweepReport := ⟨report.evicted ++ evicted, report.passes + 1⟩
    if evicted.isEmpty then return report else sweepPasses n report

/-- Sweeps to the end and saves. Each pass but the last evicts a tracked file. -/
def sweep : Action SweepReport := do
  let report ← sweepPasses ((← ids).size + 1) ⟨[], 0⟩
  save
  return report

end Workspace

end BuildCache
