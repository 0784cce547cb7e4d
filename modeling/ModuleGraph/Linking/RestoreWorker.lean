import ModuleGraph.Linking.RestoreQueue

/-!
# The worker

A batch is not restored in one step. The worker is a thread: it looks at the queue, takes
everything that is there, restores it, and notifies one document after the other. In between others
go on: they queue requests, they use the site, and they may drop the scheduler, which ends the
worker the next time it looks.

A worker that finds nothing in the queue sleeps. A request wakes it, and so does the end of the
scheduler; it may also wake for no reason, and looks again.
-/

namespace ModuleGraph

/-- What the worker is about to do. -/
inductive Worker where
  /-- It has not been started. -/
  | absent
  /-- It looks at the queue. -/
  | awake
  /-- It waits to be woken. -/
  | asleep
  /-- It restores the batch that it has taken. -/
  | holding (batch : List RestoreRequest)
  /-- It notifies documents. -/
  | notifying (documents : List Url)
  /-- Nothing more. -/
  | stopped
  deriving Repr

def Worker.wake : Worker → Worker
  | asleep => awake
  | w => w

/-- The queue, what takes from it, and the site that it works at. -/
structure Scheduler (σ : Type) where
  site : Site σ
  queue : List RestoreRequest
  worker : Worker
  dropped : Bool

namespace Scheduler

/-- What happens, as far as it matters to whoever makes requests. -/
inductive Event where
  | requested (request : RestoreRequest)
  | taken (batch : List RestoreRequest)
  | restored (declarations : List Declaration)
  | notified (document : Url)

variable {σ : Type}

/-- There are no requests yet, and no worker. -/
def create (site : Site σ) : Scheduler σ := ⟨site, [], .absent, false⟩

def request (s : Scheduler σ) (r : RestoreRequest) : Scheduler σ :=
  { s with queue := s.queue ++ [r], worker := s.worker.wake }

/-- Starts the worker, unless it has been started before. -/
def start (s : Scheduler σ) : Scheduler σ :=
  match s.worker with
  | .absent => { s with worker := .awake }
  | _ => s

def drop (s : Scheduler σ) : Scheduler σ :=
  { s with dropped := true, worker := s.worker.wake }

/-- The next step of the worker, if it has one. -/
def advance (routes : Routes σ) (s : Scheduler σ) : Option (List Event × Scheduler σ) :=
  match s.worker with
  | .awake =>
    if s.dropped then some ([], { s with worker := .stopped })
    else if s.queue.isEmpty then some ([], { s with worker := .asleep })
    else some ([.taken s.queue], { s with queue := [], worker := .holding s.queue })
  | .holding batch =>
    let ds := distinctDeclarations (batch.flatMap (·.declarations))
    let documents := distinctDocuments (batch.map (·.document))
    some ([.restored ds],
      { s with site := (routes.restore s.site ds).2, worker := .notifying documents })
  | .notifying (document :: rest) =>
    some ([.notified document], { s with worker := .notifying rest })
  | .notifying [] => some ([], { s with worker := .awake })
  | .absent | .asleep | .stopped => none

/-- One step of the worker or of somebody else. After it has been dropped, nobody has the scheduler
to make requests with. -/
inductive Step (routes : Routes σ) : Scheduler σ → List Event → Scheduler σ → Prop where
  | request {s : Scheduler σ} (r : RestoreRequest) (h : s.dropped = false) :
      Step routes s [.requested r] (s.request r)
  | start {s : Scheduler σ} (h : s.dropped = false) : Step routes s [] s.start
  | drop {s : Scheduler σ} : Step routes s [] s.drop
  | wake {s : Scheduler σ} : Step routes s [] { s with worker := s.worker.wake }
  | elsewhere {s : Scheduler σ} (site : Site σ) : Step routes s [] { s with site := site }
  | advance {s s' : Scheduler σ} {events : List Event}
      (h : s.advance routes = some (events, s')) : Step routes s events s'

/-- All orders of steps from a new scheduler on, with what has happened so far. -/
inductive Runs (routes : Routes σ) (site : Site σ) : List Event → Scheduler σ → Prop where
  | create : Runs routes site [] (create site)
  | step {log events : List Event} {s s' : Scheduler σ} (h : Runs routes site log s)
      (hstep : Step routes s events s') : Runs routes site (log ++ events) s'

end Scheduler

end ModuleGraph
