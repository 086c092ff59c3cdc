import Mathlib.Algebra.Order.Ring.Rat
import Mathlib.Data.List.Basic
import Mathlib.Data.List.MinMax
import Mathlib.Data.Prod.Lex
import Mathlib.Data.Rat.Defs
import TrwMemory.Library.Table
import TrwMemory.Library.Transition

/-!
The daemon's write lane, `daemon._lane`, over the pools of `daemon._offload` that have one
thread. Every section under the module's lock is one step, and so is every call of a future or
of the pool between two of them; threads interleave at any of these steps. A future is known by
its job. What a body returns or raises is an outcome of any type, chosen by its environment, and
times are exact.

A pool is known by its number, since a pool that was shut down can be followed by another. An
item is a call that was submitted to a pool and that the pool's thread has not taken, or one
that the shutdown cancelled before its callback was registered. That a pool has one thread is
not used.

The history is no part of the code: it marks what callers can tell, which submissions were
called, accepted or refused and which bodies were started and returned. Not modelled: the
deadline and the warning of a job that overran, the pool of the served tool bodies, forks, a
thread that cannot be started, and the depth of the interpreter's stack when one shutdown drops
a long queue.
-/
namespace TrwMemory.Daemon

universe u

structure Item (J : Type u) where
  pool : Nat
  job : J
  watched : Bool
  cancelled : Bool
deriving DecidableEq

/-- What one round of the cancelling loop of `shutdown` meets. -/
inductive Drained (J : Type u) where
  | done
  | cancelled
  | dropped (job : J)

structure Offload (J : Type u) where
  closed : Bool
  executor : Option Nat
  nextPool : Nat
  shut : List Nat
  items : List (Item J)

namespace Offload

variable {J : Type u} [DecidableEq J]

def initial : Offload J := ⟨false, none, 0, [], []⟩

/-- `_executor(1)`. `none` is the `RuntimeError` of a closed module. -/
def executorOf (o : Offload J) : Option (Nat × Offload J) :=
  if o.closed then none
  else
    match o.executor with
    | some pool => some (pool, o)
    | none => some (o.nextPool, { o with executor := some o.nextPool, nextPool := o.nextPool + 1 })

/-- `ThreadPoolExecutor.submit`. `none` is the `RuntimeError` of a pool that was shut down. -/
def submit (o : Offload J) (pool : Nat) (job : J) : Option (Offload J) :=
  if pool ∈ o.shut then none
  else some { o with items := o.items ++ [⟨pool, job, false, false⟩] }

/-- `add_done_callback` on the item of a job. The flag says that the item was cancelled before,
so that the callback is called at once. -/
def addDoneCallback (o : Offload J) (job : J) : Bool × Offload J :=
  match o.items.find? fun item => item.job = job with
  | none => (false, o)
  | some item =>
      if item.cancelled then (true, { o with items := o.items.erase item })
      else (false, { o with items := o.items.replace item { item with watched := true } })

/-- The thread of a pool takes the job off its queue, unless the item was cancelled. -/
def takeItem (o : Offload J) (pool : Nat) (job : J) : Option (Offload J) :=
  (o.items.find? fun item => item.pool = pool && decide (item.job = job) && !item.cancelled).map
    fun item => { o with items := o.items.erase item }

/-- `refuse_offload_submissions`. -/
def refuse (o : Offload J) : Offload J := { o with closed := true }

/-- `shutdown_offload_pool` takes the pool out under its lock. -/
def takeExecutor (o : Offload J) : Option Nat × Offload J :=
  (o.executor, { o with executor := none })

/-- `shutdown(cancel_futures=True)`: from here on the pool refuses. -/
def shutdown (o : Offload J) (pool : Nat) : Offload J := { o with shut := pool :: o.shut }

/-- One round of that loop: the item is cancelled, which calls its callback if it has one. -/
def drainItem (o : Offload J) (pool : Nat) : Drained J × Offload J :=
  match o.items.find? fun item => item.pool = pool && !item.cancelled with
  | none => (.done, o)
  | some item =>
      if item.watched then (.dropped item.job, { o with items := o.items.erase item })
      else (.cancelled, { o with items := o.items.replace item { item with cancelled := true } })

end Offload

open Library.Keyed Library.Threads Library.Transition

structure LaneBudget where
  name : String
  seconds : Rat
  rows : Nat
  background : Bool
deriving DecidableEq

def interactive : LaneBudget := ⟨"interactive", 10, 10000, false⟩

def maintenance : LaneBudget := ⟨"maintenance", 1 / 4, 1000, true⟩

def agingSeconds : Rat := 5

/-- `_SERVED_MAX`. -/
def servedMax : Nat := 4096

/-- `_Job`. Its call is known by the number of the submission that made it. -/
structure Job where
  budget : LaneBudget
  tenant : String
  call : Nat
  queuedAt : Rat
  seq : Nat
deriving DecidableEq

inductive Future (Outcome : Type) where
  | pending
  | running
  | cancelled
  | finished (outcome : Outcome)
deriving DecidableEq

inductive Mark (Outcome : Type) where
  | called (call : Nat)
  | refusing
  | accepted (job : Job)
  | refused (job : Job)
  | started (job : Job)
  | returned (job : Job) (outcome : Outcome)
deriving DecidableEq

structure Lane (Outcome : Type) where
  now : Rat
  calls : Nat
  nextSeq : Nat
  jobs : List Job
  futures : Job → Future Outcome
  queue : List Job
  served : Table String Rat
  running : List Job
  shutdown : Bool
  offload : Offload Job
  history : List (Mark Outcome)

/-- What a thread has still to do, from its next atomic step on. -/
inductive Task (Outcome : Type) where
  | number (call : Nat) (budget : LaneBudget) (tenant : String) (queuedAt : Rat)
  | enqueue (job : Job)
  | dispatch
  | lookUp (job : Job)
  | give (job : Job) (pool : Nat)
  | watch (job : Job)
  | take (job : Job) (pool : Nat)
  | enter (job : Job)
  | body (job : Job)
  | settle (job : Job) (outcome : Outcome)
  | drop (job : Job)
  | release
  | cancelAll (dropped : List Job) (pools : Bool)
  | takePool
  | shut (pool : Nat)
  | drain (pool : Nat)
deriving DecidableEq

/-- The calls of the lane's users, and the clock. -/
inductive Call where
  | passes (time : Rat)
  | submit (budget : LaneBudget) (tenant : String)
  | cancel (job : Job)
  | cancelQueued
  | refuseLaneSubmissions
  | refuseOffloadSubmissions
  | shutdownOffloadPool
deriving DecidableEq

namespace Lane

variable {Outcome : Type}

/-- `future.cancel()`: only a future that has not started is cancelled. -/
def cancel (s : Lane Outcome) (job : Job) : Lane Outcome :=
  match s.futures job with
  | .pending => { s with futures := Function.update s.futures job .cancelled }
  | _ => s

/-- `future.cancelled()` of a job. -/
def isCancelled (s : Lane Outcome) (job : Job) : Bool :=
  match s.futures job with
  | .cancelled => true
  | _ => false

def mark (s : Lane Outcome) (m : Mark Outcome) : Lane Outcome :=
  { s with history := s.history ++ [m] }

/-- `_rank`. -/
def rank (served : Table String Rat) (now : Rat) (job : Job) : Bool ×ₗ Rat ×ₗ Nat :=
  toLex (job.budget.background && decide (now - job.queuedAt < agingSeconds),
    toLex ((served.find job.tenant).getD 0, job.seq))

/-- `_served[job.tenant] = now`, after the table was cleared if it is full. -/
def serve (served : Table String Rat) (tenant : String) (now : Rat) : Table String Rat :=
  (if servedMax ≤ served.rows.length then Table.empty else served).put tenant now

/-- The rest of a job's construction in `submit`: `seq` is taken last. -/
def number (s : Lane Outcome) (call : Nat) (budget : LaneBudget) (tenant : String)
    (queuedAt : Rat) : Lane Outcome × List (Task Outcome) :=
  ({ s with
      nextSeq := s.nextSeq + 1
      jobs := s.jobs ++ [⟨budget, tenant, call, queuedAt, s.nextSeq⟩] },
    [.enqueue ⟨budget, tenant, call, queuedAt, s.nextSeq⟩])

/-- The section of `submit` under the lock. -/
def enqueue (s : Lane Outcome) (job : Job) : Lane Outcome × List (Task Outcome) :=
  if s.shutdown then ((s.cancel job).mark (.refused job), [])
  else ({ s with queue := s.queue ++ [job] }.mark (.accepted job), [.dispatch])

/-- The queue without the jobs that were cancelled. -/
def waiting (s : Lane Outcome) : List Job := s.queue.filter fun job => !s.isCancelled job

/-- The section of `_dispatch` under the lock. -/
def dispatch (s : Lane Outcome) : Lane Outcome × List (Task Outcome) :=
  if s.running ≠ [] then ({ s with queue := s.waiting }, [])
  else
    match s.waiting.argmin (rank s.served s.now) with
    | none => ({ s with queue := s.waiting }, [])
    | some job =>
        ({ s with
            queue := s.waiting.erase job
            running := s.running ++ [job]
            served := serve s.served job.tenant s.now },
          [.lookUp job])

/-- `_executor(1)` in `_dispatch`. -/
def lookUp (s : Lane Outcome) (job : Job) : Lane Outcome × List (Task Outcome) :=
  match s.offload.executorOf with
  | none => (s, [.drop job])
  | some (pool, offload) => ({ s with offload := offload }, [.give job pool])

/-- `.submit(_run, job)` in `_dispatch`. -/
def give (s : Lane Outcome) (job : Job) (pool : Nat) : Lane Outcome × List (Task Outcome) :=
  match s.offload.submit pool job with
  | none => (s, [.drop job])
  | some offload => ({ s with offload := offload }, [.watch job, .take job pool])

/-- `.add_done_callback(…)` in `_dispatch`. -/
def watch (s : Lane Outcome) (job : Job) : Lane Outcome × List (Task Outcome) :=
  ({ s with offload := (s.offload.addDoneCallback job).2 },
    if (s.offload.addDoneCallback job).1 then [.drop job] else [])

def take (s : Lane Outcome) (job : Job) (pool : Nat) : Lane Outcome × List (Task Outcome) :=
  match s.offload.takeItem pool job with
  | none => (s, [])
  | some offload => ({ s with offload := offload }, [.enter job])

/-- `_run` up to its body: a future that cannot be set running frees the lane. -/
def enter (s : Lane Outcome) (job : Job) : Lane Outcome × List (Task Outcome) :=
  match s.futures job with
  | .pending =>
      ({ s with futures := Function.update s.futures job .running }.mark (.started job),
        [.body job])
  | _ => (s, [.release])

/-- The body returns or raises. -/
def leave (s : Lane Outcome) (job : Job) (outcome : Outcome) :
    Lane Outcome × List (Task Outcome) :=
  (s.mark (.returned job outcome), [.settle job outcome])

/-- `set_result` or `set_exception` in `_run`; a future that is settled already refuses both. -/
def settle (s : Lane Outcome) (job : Job) (outcome : Outcome) :
    Lane Outcome × List (Task Outcome) :=
  match s.futures job with
  | .pending | .running =>
      ({ s with futures := Function.update s.futures job (.finished outcome) }, [.release])
  | _ => (s, [.release])

/-- `_drop`. -/
def drop (s : Lane Outcome) (job : Job) : Lane Outcome × List (Task Outcome) :=
  (s.cancel job, [.release])

/-- The section of `_release` under the lock. -/
def release (s : Lane Outcome) : Lane Outcome × List (Task Outcome) :=
  ({ s with running := [] }, [.dispatch])

/-- The loop of `cancel_queued`, and what `shutdown_offload_pool` does after it. -/
def cancelAll (s : Lane Outcome) : List Job → Bool → Lane Outcome × List (Task Outcome)
  | job :: rest, pools => (s.cancel job, [.cancelAll rest pools])
  | [], true => (s, [.takePool])
  | [], false => (s, [])

def takePool (s : Lane Outcome) : Lane Outcome × List (Task Outcome) :=
  ({ s with offload := s.offload.takeExecutor.2 },
    s.offload.takeExecutor.1.toList.map Task.shut)

def afterDrain (pool : Nat) : Drained Job → List (Task Outcome)
  | .done => []
  | .cancelled => [.drain pool]
  | .dropped job => [.drop job, .drain pool]

def drain (s : Lane Outcome) (pool : Nat) : Lane Outcome × List (Task Outcome) :=
  ({ s with offload := (s.offload.drainItem pool).2 },
    afterDrain pool (s.offload.drainItem pool).1)

/-- The next atomic step of a thread. The outcome is for the body that returns. -/
def perform (task : Task Outcome) (outcome : Outcome) (s : Lane Outcome) :
    Lane Outcome × List (Task Outcome) :=
  match task with
  | .number call budget tenant queuedAt => s.number call budget tenant queuedAt
  | .enqueue job => s.enqueue job
  | .dispatch => s.dispatch
  | .lookUp job => s.lookUp job
  | .give job pool => s.give job pool
  | .watch job => s.watch job
  | .take job pool => s.take job pool
  | .enter job => s.enter job
  | .body job => s.leave job outcome
  | .settle job result => s.settle job result
  | .drop job => s.drop job
  | .release => s.release
  | .cancelAll dropped pools => s.cancelAll dropped pools
  | .takePool => s.takePool
  | .shut pool => ({ s with offload := s.offload.shutdown pool }, [.drain pool])
  | .drain pool => s.drain pool

/-- The section of `cancel_queued` under the lock. -/
def cancelQueued (s : Lane Outcome) (pools : Bool) : Lane Outcome × List (Task Outcome) :=
  ({ s with queue := [], served := Table.empty }, [.cancelAll s.queue pools])

/-- The first atomic step of a call. No clock goes back, and only a job has a future. -/
def call (c : Call) (s : Lane Outcome) : Option (Lane Outcome × List (Task Outcome)) :=
  match c with
  | .passes time => if s.now ≤ time then some ({ s with now := time }, []) else none
  | .submit budget tenant =>
      some ({ s with calls := s.calls + 1 }.mark (.called s.calls),
        [.number s.calls budget tenant s.now])
  | .cancel job => if job ∈ s.jobs then some (s.cancel job, []) else none
  | .cancelQueued => some (s.cancelQueued false)
  | .refuseLaneSubmissions => some ({ s with shutdown := true }.mark .refusing, [])
  | .refuseOffloadSubmissions => some ({ s with offload := s.offload.refuse }, [])
  | .shutdownOffloadPool => some (s.cancelQueued true)

def program : Program (Lane Outcome) (Task Outcome) Outcome Call := ⟨perform, call⟩

def initial : Lane Outcome where
  now := 0
  calls := 0
  nextSeq := 0
  jobs := []
  futures := fun _ => .pending
  queue := []
  served := Table.empty
  running := []
  shutdown := false
  offload := .initial
  history := []

end Lane

end TrwMemory.Daemon
