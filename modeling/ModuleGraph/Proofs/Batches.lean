import ModuleGraph.Linking.RestoreWorker
import ModuleGraph.Linking.Server
import ModuleGraph.Proofs.Building
import ModuleGraph.Proofs.FirstOccurrences

/-!
# Every request is in one batch

Requests come at any time, and the worker looks at the queue whenever it gets
around to it. Still, what has been requested is what has been taken, batch after
batch, followed by what is queued, and what the worker has done is one service
for each batch: it takes the batch, restores it, and notifies its documents.
What is left of the service that it is at is `outstanding`. The log says so, and
`Step.restores` ties it to the site: a step that logs the restore of declarations
leaves the site that one call with just these declarations gives.

From these two accounts alone it does not follow that a request is answered
after it was made, since requests may be equal. So every request is also followed
on its way through the queue, the batch and the documents. It gets to the end of
the way because the worker never sleeps while something is queued: whoever puts
a request into the queue wakes it.
-/

namespace ModuleGraph

namespace Scheduler

variable {σ : Type} {routes : Routes σ} {site : Site σ} {s s' : Scheduler σ}
  {log events before later : List Event} {r : RestoreRequest} {batch : List RestoreRequest}
  {ds : List Declaration} {documents : List Url} {w : Worker} {n : Nat}

/-! ## The log -/

namespace Event

def request? : Event → Option RestoreRequest
  | requested r => some r
  | _ => none

def batch? : Event → Option (List RestoreRequest)
  | taken batch => some batch
  | _ => none

end Event

/-- All requests, in order. -/
def requests (log : List Event) : List RestoreRequest := log.filterMap Event.request?

/-- All batches, in order. -/
def batches (log : List Event) : List (List RestoreRequest) := log.filterMap Event.batch?

/-- What the worker has done. -/
def performed (log : List Event) : List Event := log.filter (·.request?.isNone)

/-- The declarations of a batch, the first one of each id. -/
def toRestore (batch : List RestoreRequest) : List Declaration :=
  (batch.flatMap (·.declarations)).eraseDupsBy fun d e => d.id == e.id

/-- The documents of a batch, in the order of their first requests. -/
def toNotify (batch : List RestoreRequest) : List Url :=
  (batch.map (·.document)).eraseDups

/-- What is to be done for a batch: one restore, and then one notice for each document. -/
def service (batch : List RestoreRequest) : List Event :=
  .taken batch :: .restored (toRestore batch) :: (toNotify batch).map .notified

/-- What is left of the service of the worker's batch. -/
def outstanding : Worker → List Event
  | .holding batch => .restored (toRestore batch) :: (toNotify batch).map .notified
  | .notifying documents => documents.map .notified
  | .absent | .awake | .asleep | .stopped => []

@[simp] theorem requests_append (log events : List Event) :
    requests (log ++ events) = requests log ++ requests events :=
  List.filterMap_append

@[simp] theorem batches_append (log events : List Event) :
    batches (log ++ events) = batches log ++ batches events :=
  List.filterMap_append

@[simp] theorem performed_append (log events : List Event) :
    performed (log ++ events) = performed log ++ performed events :=
  List.filter_append ..

/-! ## Steps -/

@[simp] theorem outstanding_wake (w : Worker) : outstanding w.wake = outstanding w := by
  cases w <;> rfl

theorem wake_ne_asleep (w : Worker) : w.wake ≠ .asleep := by
  cases w <;> exact nofun

theorem wake_eq_stopped_iff (w : Worker) : w.wake = .stopped ↔ w = .stopped := by
  cases w <;> simp [Worker.wake]

/-- Everything that the worker does in one step. -/
inductive Advanced (routes : Routes σ) (s : Scheduler σ) : List Event → Scheduler σ → Prop where
  | stops (hworker : s.worker = .awake) (hdropped : s.dropped = true) :
      Advanced routes s [] { s with worker := .stopped }
  | sleeps (hworker : s.worker = .awake) (hdropped : s.dropped = false) (hqueue : s.queue = []) :
      Advanced routes s [] { s with worker := .asleep }
  | takes (hworker : s.worker = .awake) (hdropped : s.dropped = false) (hqueue : s.queue ≠ []) :
      Advanced routes s [.taken s.queue] { s with queue := [], worker := .holding s.queue }
  | restores {batch : List RestoreRequest} (hworker : s.worker = .holding batch) :
      Advanced routes s [.restored (toRestore batch)]
        { s with site := (routes.restore s.site (toRestore batch)).2,
                 worker := .notifying (toNotify batch) }
  | notifies {document : Url} {rest : List Url}
      (hworker : s.worker = .notifying (document :: rest)) :
      Advanced routes s [.notified document] { s with worker := .notifying rest }
  | wakes (hworker : s.worker = .notifying []) :
      Advanced routes s [] { s with worker := .awake }

theorem advanced_of_advance (h : s.advance routes = some (events, s')) :
    Advanced routes s events s' := by
  rw [advance] at h
  split at h
  · next hworker =>
    split at h
    · next hdropped =>
      cases h
      exact .stops hworker hdropped
    · next hdropped =>
      split at h
      · next hqueue =>
        cases h
        exact .sleeps hworker (Bool.eq_false_iff.2 hdropped) (List.isEmpty_iff.1 hqueue)
      · next hqueue =>
        cases h
        exact .takes hworker (Bool.eq_false_iff.2 hdropped) fun hnil => hqueue (hnil ▸ rfl)
  · next hworker =>
    dsimp only at h
    rw [distinctDeclarations_eq_eraseDupsBy, distinctDocuments_eq_eraseDups] at h
    cases h
    exact .restores hworker
  · next hworker =>
    cases h
    exact .notifies hworker
  · next hworker =>
    cases h
    exact .wakes hworker
  all_goals cases h

theorem Advanced.advance (h : Advanced routes s events s') :
    s.advance routes = some (events, s') := by
  cases h with
  | stops hworker hdropped => rw [Scheduler.advance, hworker]; simp [hdropped]
  | sleeps hworker hdropped hqueue => rw [Scheduler.advance, hworker]; simp [hdropped, hqueue]
  | takes hworker hdropped hqueue => rw [Scheduler.advance, hworker]; simp [hdropped, hqueue]
  | restores hworker =>
    rw [Scheduler.advance, hworker]
    dsimp only
    rw [distinctDeclarations_eq_eraseDupsBy, distinctDocuments_eq_eraseDups]
    rfl
  | notifies hworker => rw [Scheduler.advance, hworker]
  | wakes hworker => rw [Scheduler.advance, hworker]

/-- A step of the worker that calls for a restore of these declarations, and does nothing else. -/
structure Restores (routes : Routes σ) (ds : List Declaration) (s s' : Scheduler σ) : Prop where
  advance : s.advance routes = some ([.restored ds], s')
  site : s'.site = (routes.restore s.site ds).2

/-- Whatever is logged as restored has been restored in that step, by one call. -/
theorem Step.restores (hs : Step routes s events s') (h : .restored ds ∈ events) :
    events = [.restored ds] ∧ Restores routes ds s s' := by
  cases hs with
  | request r _ => cases List.mem_singleton.1 h
  | start | drop | wake | elsewhere => cases h
  | advance hadvance =>
    cases advanced_of_advance hadvance with
    | stops | sleeps | wakes => cases h
    | takes | notifies => cases List.mem_singleton.1 h
    | restores =>
      cases List.mem_singleton.1 h
      exact ⟨rfl, hadvance, rfl⟩

/-- No other step of the worker touches the site. -/
theorem site_of_advance (hadvance : s.advance routes = some (events, s'))
    (h : ∀ ds, .restored ds ∉ events) : s'.site = s.site := by
  cases advanced_of_advance hadvance with
  | restores => exact absurd (List.mem_singleton_self _) (h _)
  | stops | sleeps | takes | notifies | wakes => rfl

/-! ## Accounts -/

/-- Nothing is lost or done twice, and nobody sleeps over it. -/
structure Accounted (log : List Event) (s : Scheduler σ) : Prop where
  arrivals : requests log = (batches log).flatten ++ s.queue
  services : performed log ++ outstanding s.worker = (batches log).flatMap service
  sleeping : s.worker = .asleep → s.queue = []
  ended : s.worker = .stopped → s.dropped = true

theorem accounted_create : Accounted [] (create site) :=
  ⟨rfl, rfl, fun _ => rfl, nofun⟩

/-- What leaves the queue alone, and does what is outstanding, leaves the accounts balanced. -/
theorem Accounted.work (h : Accounted log s) (hrequests : requests events = [])
    (hbatches : batches events = []) (hqueue : s'.queue = s.queue)
    (houtstanding : outstanding s.worker = performed events ++ outstanding s'.worker)
    (hasleep : s'.worker = .asleep → s'.queue = [])
    (hstopped : s'.worker = .stopped → s'.dropped = true) : Accounted (log ++ events) s' where
  arrivals := by
    rw [requests_append, batches_append, hrequests, hbatches, List.append_nil, List.append_nil,
      hqueue, h.arrivals]
  services := by
    rw [performed_append, batches_append, hbatches, List.append_nil, List.append_assoc,
      ← houtstanding, h.services]
  sleeping := hasleep
  ended := hstopped

theorem Accounted.advanced (h : Accounted log s) (hs : Advanced routes s events s') :
    Accounted (log ++ events) s' := by
  cases hs with
  | stops hworker hdropped =>
    exact h.work rfl rfl rfl (by rw [hworker]; rfl) nofun fun _ => hdropped
  | sleeps hworker hdropped hqueue =>
    exact h.work rfl rfl rfl (by rw [hworker]; rfl) (fun _ => hqueue) nofun
  | takes hworker hdropped hqueue =>
    have hperformed := h.services
    rw [hworker, outstanding, List.append_nil] at hperformed
    have hbatch : batches [.taken s.queue] = [s.queue] := rfl
    refine ⟨?_, ?_, nofun, nofun⟩
    · rw [requests_append, batches_append, hbatch, h.arrivals, List.flatten_append,
        List.flatten_singleton, List.append_nil]
      exact List.append_nil _
    · rw [performed_append, batches_append, hbatch, List.flatMap_append, List.flatMap_singleton,
        ← hperformed, List.append_assoc]
      rfl
  | restores hworker => exact h.work rfl rfl rfl (by rw [hworker]; rfl) nofun nofun
  | notifies hworker => exact h.work rfl rfl rfl (by rw [hworker]; rfl) nofun nofun
  | wakes hworker => exact h.work rfl rfl rfl (by rw [hworker]; rfl) nofun nofun

theorem accounted_step (h : Accounted log s) (hs : Step routes s events s') :
    Accounted (log ++ events) s' := by
  have hwoken : s.worker.wake = .stopped → s.dropped = true := fun hstopped =>
    h.ended ((wake_eq_stopped_iff _).1 hstopped)
  cases hs with
  | request r _ =>
    have hbatches : batches (log ++ [.requested r]) = batches log :=
      (batches_append ..).trans (List.append_nil _)
    have hperformed : performed (log ++ [.requested r]) = performed log :=
      (performed_append ..).trans (List.append_nil _)
    refine ⟨?_, ?_, fun hasleep => absurd hasleep (wake_ne_asleep _), hwoken⟩
    · rw [hbatches, requests_append, h.arrivals, List.append_assoc]
      rfl
    · rw [hbatches, hperformed, ← h.services]
      exact congrArg (performed log ++ ·) (outstanding_wake _)
  | start =>
    rw [start]
    split
    · next hworker => exact h.work rfl rfl rfl (by rw [hworker]; rfl) nofun nofun
    · exact h.work rfl rfl rfl rfl h.sleeping h.ended
  | drop =>
    exact h.work rfl rfl rfl (outstanding_wake _).symm
      (fun hasleep => absurd hasleep (wake_ne_asleep _)) fun _ => rfl
  | wake =>
    exact h.work rfl rfl rfl (outstanding_wake _).symm
      (fun hasleep => absurd hasleep (wake_ne_asleep _)) hwoken
  | elsewhere => exact h.work rfl rfl rfl rfl h.sleeping h.ended
  | advance hadvance => exact h.advanced (advanced_of_advance hadvance)

theorem Runs.accounted (h : Runs routes site log s) : Accounted log s := by
  induction h with
  | create => exact accounted_create
  | step _ hs ih => exact accounted_step ih hs

/-! ## The way of a request -/

/-- A restore of all its declarations, and then a notice for its document. -/
def Answered (r : RestoreRequest) (later : List Event) : Prop :=
  ∃ before ds after, later = before ++ .restored ds :: after ∧
    (∀ d ∈ r.declarations, ∃ e ∈ ds, e.id = d.id) ∧ .notified r.document ∈ after

/-- The steps that the worker takes before it looks at the queue again. -/
def ahead : Worker → Nat
  | .holding batch => (toNotify batch).length + 2
  | .notifying documents => documents.length + 1
  | .absent | .awake | .asleep | .stopped => 0

@[simp] theorem ahead_wake (w : Worker) : ahead w.wake = ahead w := by
  cases w <;> rfl

/-- How far a request has come, when `later` is what has happened since it was made. No more than
`n` steps of the worker are needed from there to its answer, unless it is left in the queue of a
scheduler that is dropped. -/
inductive Underway (r : RestoreRequest) (later : List Event) (s : Scheduler σ) (n : Nat) :
    Prop where
  | queued {before after : List Url} (h : r ∈ s.queue)
      (hplace : toNotify s.queue = before ++ r.document :: after)
      (hn : ahead s.worker + before.length + 3 ≤ n)
  | held {batch : List RestoreRequest} {before after : List Url}
      (hworker : s.worker = .holding batch) (h : r ∈ batch)
      (hplace : toNotify batch = before ++ r.document :: after)
      (hn : before.length + 2 ≤ n)
  | restored {log log' : List Event} {ds : List Declaration} {before after : List Url}
      (hworker : s.worker = .notifying (before ++ r.document :: after))
      (hlater : later = log ++ .restored ds :: log')
      (hds : ∀ d ∈ r.declarations, ∃ e ∈ ds, e.id = d.id) (hn : before.length + 1 ≤ n)
  | answered (h : Answered r later)
  | lost (hdropped : s.dropped = true) (h : r ∈ s.queue)

theorem Answered.append (h : Answered r later) : Answered r (later ++ events) := by
  obtain ⟨before, ds, after, rfl, hds, hnotified⟩ := h
  exact ⟨before, ds, after ++ events, List.append_assoc .., hds, List.mem_append_left _ hnotified⟩

theorem Underway.mono {m : Nat} (h : Underway r later s n) (hle : n ≤ m) :
    Underway r later s m := by
  cases h with
  | queued h hplace hn => exact .queued h hplace (Nat.le_trans hn hle)
  | held hworker h hplace hn => exact .held hworker h hplace (Nat.le_trans hn hle)
  | restored hworker hlater hds hn => exact .restored hworker hlater hds (Nat.le_trans hn hle)
  | answered h => exact .answered h
  | lost hdropped h => exact .lost hdropped h

/-- Steps of others do not hold up a request. Requests that come later have their documents behind
its own. -/
theorem Underway.other (h : Underway r later s n) {added : List RestoreRequest}
    (hqueue : s'.queue = s.queue ++ added) (hahead : ahead s'.worker = ahead s.worker)
    (hheld : ∀ batch, s.worker = .holding batch → s'.worker = .holding batch)
    (hnotifying : ∀ documents, s.worker = .notifying documents → s'.worker = .notifying documents)
    (hdropped : s.dropped = true → s'.dropped = true) :
    Underway r (later ++ events) s' n := by
  cases h with
  | queued h hplace hn =>
    have hplace' : toNotify s'.queue = toNotify s.queue ++
        ((added.map (·.document)).removeAll (s.queue.map (·.document))).eraseDups := by
      rw [hqueue, toNotify, List.map_append, List.eraseDups_append, toNotify]
    rw [hplace, List.append_assoc, List.cons_append] at hplace'
    exact .queued (hqueue ▸ List.mem_append_left _ h) hplace' (hahead ▸ hn)
  | held hworker h hplace hn => exact .held (hheld _ hworker) h hplace hn
  | @restored log log' ds before after hworker hlater hds hn =>
    have hsplit : later ++ events = log ++ .restored ds :: (log' ++ events) := by
      rw [hlater, List.append_assoc, List.cons_append]
    exact .restored (hnotifying _ hworker) hsplit hds hn
  | answered h => exact .answered h.append
  | lost hlost h => exact .lost (hdropped hlost) (hqueue ▸ List.mem_append_left _ h)

theorem exists_mem_toRestore {d : Declaration} (hr : r ∈ batch) (hd : d ∈ r.declarations) :
    ∃ e ∈ toRestore batch, e.id = d.id :=
  exists_mem_eraseDupsBy Declaration.id (List.mem_flatMap.2 ⟨r, hr, hd⟩)

theorem mem_toNotify (hr : r ∈ batch) : r.document ∈ toNotify batch :=
  List.mem_eraseDups.2 (List.mem_map_of_mem hr)

/-- Every step of the worker brings a request nearer to its answer. -/
theorem Underway.advanced (h : Underway r later s (n + 1)) (hs : Advanced routes s events s') :
    Underway r (later ++ events) s' n := by
  cases h with
  | answered h => exact .answered h.append
  | queued h hplace hn =>
    cases hs with
    | stops hworker hdropped => exact .lost hdropped h
    | sleeps hworker hdropped hqueue =>
      rw [hqueue] at h
      cases h
    | takes hworker =>
      rw [hworker] at hn
      exact .held rfl h hplace (by simp only [ahead] at hn; omega)
    | restores hworker | notifies hworker | wakes hworker =>
      rw [hworker] at hn
      simp only [ahead, List.length_cons, List.length_nil] at hn
      exact .queued h hplace (by simp only [ahead]; omega)
  | held hheld h hplace hn =>
    cases hs with
    | restores hworker =>
      rw [hworker] at hheld
      cases hheld
      exact .restored (congrArg Worker.notifying hplace) rfl (fun _ => exists_mem_toRestore h)
        (Nat.le_of_succ_le_succ hn)
    | stops hworker | sleeps hworker | takes hworker | notifies hworker | wakes hworker =>
      rw [hworker] at hheld
      cases hheld
  | @restored log log' ds before after hnotifying hlater hds hn =>
    cases hs with
    | @notifies document rest hworker =>
      rw [hworker] at hnotifying
      have hdocuments := Worker.notifying.inj hnotifying
      have hsplit : later ++ [.notified document] =
          log ++ .restored ds :: (log' ++ [.notified document]) := by
        rw [hlater, List.append_assoc, List.cons_append]
      rcases List.cons_eq_append_iff.1 hdocuments with ⟨-, hself⟩ | ⟨before', rfl, rfl⟩
      · -- it is the document's turn
        obtain ⟨rfl, -⟩ := List.cons.inj hself
        exact .answered
          ⟨log, ds, _, hsplit, hds, List.mem_append_right _ (List.mem_singleton_self _)⟩
      · refine .restored rfl hsplit hds ?_
        rw [List.length_cons] at hn
        omega
    | wakes hworker =>
      rw [hworker] at hnotifying
      exact absurd (Worker.notifying.inj hnotifying).symm
        (List.append_ne_nil_of_right_ne_nil _ nofun)
    | stops hworker | sleeps hworker | takes hworker | restores hworker =>
      rw [hworker] at hnotifying
      cases hnotifying
  | lost hlost h =>
    cases hs with
    | stops | restores | notifies | wakes => exact .lost hlost h
    | sleeps _ hdropped | takes _ hdropped =>
      rw [hlost] at hdropped
      cases hdropped

theorem Underway.step (h : Underway r later s n) (hs : Step routes s events s') :
    Underway r (later ++ events) s' n := by
  have hwake : ∀ w : Worker, s.worker = w → s.worker.wake = w.wake := fun _ hworker =>
    congrArg Worker.wake hworker
  cases hs with
  | request r' _ =>
    exact h.other rfl (ahead_wake _) (fun _ => hwake _) (fun _ => hwake _) id
  | start =>
    rw [start]
    split
    · next habsent =>
      refine h.other (List.append_nil _).symm (by rw [habsent]; rfl) ?_ ?_ id
      all_goals
        intro _ hworker
        rw [habsent] at hworker
        cases hworker
    · exact h.other (List.append_nil _).symm rfl (fun _ => id) (fun _ => id) id
  | drop =>
    exact h.other (List.append_nil _).symm (ahead_wake _) (fun _ => hwake _) (fun _ => hwake _)
      fun _ => rfl
  | wake =>
    exact h.other (List.append_nil _).symm (ahead_wake _) (fun _ => hwake _) (fun _ => hwake _) id
  | elsewhere =>
    exact h.other (List.append_nil _).symm rfl (fun _ => id) (fun _ => id) id
  | advance hadvance =>
    exact (h.mono (Nat.le_succ n)).advanced (advanced_of_advance hadvance)

/-- A request is queued when it is made. -/
theorem mem_queue_of_step (hs : Step routes s events s') (hr : .requested r ∈ events) :
    r ∈ s'.queue := by
  cases hs with
  | request r' _ =>
    cases List.mem_singleton.1 hr
    exact List.mem_append_right _ (List.mem_singleton_self r)
  | start | drop | wake | elsewhere => cases hr
  | advance hadvance =>
    cases advanced_of_advance hadvance with
    | stops | sleeps | wakes => cases hr
    | takes | restores | notifies => cases List.mem_singleton.1 hr

theorem exists_underway_of_mem (h : r ∈ s.queue) : ∃ n, Underway r later s n := by
  obtain ⟨before, after, hplace⟩ := List.append_of_mem (mem_toNotify h)
  exact ⟨_, .queued h hplace (Nat.le_refl _)⟩

/-- Every request that has been made is on its way. -/
theorem Runs.underway (h : Runs routes site log s)
    (hlog : log = before ++ .requested r :: later) : ∃ n, Underway r later s n := by
  induction h generalizing before later with
  | create => exact absurd hlog.symm (List.append_ne_nil_of_right_ne_nil _ nofun)
  | @step log events s s' _ hs ih =>
    rcases List.append_eq_append_iff.1 hlog with ⟨middle, -, hevents⟩ | ⟨middle, hbefore, hmore⟩
    · exact exists_underway_of_mem (mem_queue_of_step hs
        (hevents ▸ List.mem_append_right _ (List.mem_cons_self ..)))
    · rcases List.append_eq_cons_iff.1 hmore.symm with ⟨-, hevents⟩ | ⟨rest, rfl, rfl⟩
      · exact exists_underway_of_mem (mem_queue_of_step hs (hevents ▸ List.mem_cons_self ..))
      · obtain ⟨n, hway⟩ := ih hbefore
        exact ⟨n, hway.step hs⟩

/-- The worker and others go on, the worker with at least so many steps. -/
inductive Goes (routes : Routes σ) : Nat → Scheduler σ → List Event → Scheduler σ → Prop where
  | refl {s : Scheduler σ} : Goes routes 0 s [] s
  | other {n : Nat} {s s' s'' : Scheduler σ} {events later : List Event}
      (h : Step routes s events s') (hrest : Goes routes n s' later s'') :
      Goes routes n s (events ++ later) s''
  | worker {n : Nat} {s s' s'' : Scheduler σ} {events later : List Event}
      (h : s.advance routes = some (events, s')) (hrest : Goes routes n s' later s'') :
      Goes routes (n + 1) s (events ++ later) s''

theorem Goes.step {s'' : Scheduler σ} (h : Goes routes n s later s')
    (hs : Step routes s' events s'') : Goes routes n s (later ++ events) s'' := by
  induction h with
  | refl =>
    rw [List.nil_append, ← List.append_nil events]
    exact .other hs .refl
  | other hfirst _ ih =>
    rw [List.append_assoc]
    exact .other hfirst (ih hs)
  | worker hadvance _ ih =>
    rw [List.append_assoc]
    exact .worker hadvance (ih hs)

/-- What the log of a run says to be restored goes back to a step that called for it. -/
theorem Runs.exists_restores (h : Runs routes site log s)
    (hlog : log = before ++ .restored ds :: later) :
    ∃ s₁ s₂, Runs routes site before s₁ ∧ Restores routes ds s₁ s₂ ∧ Goes routes 0 s₂ later s := by
  induction h generalizing before later with
  | create => exact absurd hlog.symm (List.append_ne_nil_of_right_ne_nil _ nofun)
  | @step log events s s' hrun hs ih =>
    rcases List.append_eq_append_iff.1 hlog with ⟨middle, rfl, hevents⟩ | ⟨middle, hbefore, hmore⟩
    · obtain ⟨hsingle, hrestores⟩ :=
        hs.restores (hevents ▸ List.mem_append_right _ (List.mem_cons_self ..))
      rw [hsingle] at hevents
      obtain ⟨rfl, rfl⟩ : middle = [] ∧ later = [] := by
        simpa [List.cons_eq_append_iff] using hevents
      rw [List.append_nil]
      exact ⟨s, s', hrun, hrestores, .refl⟩
    · rcases List.append_eq_cons_iff.1 hmore.symm with ⟨rfl, hevents⟩ | ⟨rest, rfl, rfl⟩
      · obtain ⟨hsingle, hrestores⟩ := hs.restores (hevents ▸ List.mem_cons_self ..)
        rw [List.append_nil] at hbefore
        cases hevents.symm.trans hsingle
        exact ⟨s, s', hbefore ▸ hrun, hrestores, .refl⟩
      · obtain ⟨s₁, s₂, hfirst, hrestores, hgoes⟩ := ih hbefore
        exact ⟨s₁, s₂, hfirst, hrestores, hgoes.step hs⟩

/-- Whatever the others do in between, the worker comes to a request in so many steps. -/
theorem Underway.goes (h : Underway r later s n) (hgoes : Goes routes n s events s') :
    Underway r (later ++ events) s' 0 := by
  induction hgoes generalizing later with
  | refl => rwa [List.append_nil]
  | other hs _ ih =>
    rw [← List.append_assoc]
    exact ih (h.step hs)
  | worker hadvance _ ih =>
    rw [← List.append_assoc]
    exact ih (h.advanced (advanced_of_advance hadvance))

theorem Underway.answered_of_zero (h : Underway r later s 0) (hdropped : s.dropped = false) :
    Answered r later := by
  cases h with
  | queued _ _ hn | held _ _ _ hn | restored _ _ _ hn => exact absurd hn (Nat.not_succ_le_zero _)
  | answered h => exact h
  | lost hlost =>
    rw [hlost] at hdropped
    cases hdropped

theorem Underway.answered_of_asleep (h : Underway r later s n) (hworker : s.worker = .asleep)
    (hqueue : s.queue = []) : Answered r later := by
  cases h with
  | queued h | lost _ h =>
    rw [hqueue] at h
    cases h
  | held hheld =>
    rw [hworker] at hheld
    cases hheld
  | restored hnotifying =>
    rw [hworker] at hnotifying
    cases hnotifying
  | answered h => exact h

/-! ## The worker alone -/

/-- The worker goes on, and nobody else does anything. -/
inductive Alone (routes : Routes σ) : Scheduler σ → List Event → Scheduler σ → Prop where
  | refl {s : Scheduler σ} : Alone routes s [] s
  | step {s s' s'' : Scheduler σ} {events later : List Event}
      (h : s.advance routes = some (events, s')) (hrest : Alone routes s' later s'') :
      Alone routes s (events ++ later) s''

theorem Alone.trans {s'' : Scheduler σ} (h : Alone routes s events s')
    (h' : Alone routes s' later s'') : Alone routes s (events ++ later) s'' := by
  induction h with
  | refl => exact h'
  | step hadvance _ ih =>
    rw [List.append_assoc]
    exact .step hadvance (ih h')

theorem alone_notifying (hworker : s.worker = .notifying documents) :
    Alone routes s (documents.map .notified) { s with worker := .awake } := by
  induction documents generalizing s with
  | nil => exact .step (Advanced.wakes hworker).advance .refl
  | cons document rest ih =>
    exact .step (Advanced.notifies hworker).advance (ih rfl)

theorem alone_holding (hworker : s.worker = .holding batch) :
    Alone routes s (outstanding (.holding batch))
      { s with site := (routes.restore s.site (toRestore batch)).2, worker := .awake } :=
  .step (Advanced.restores hworker).advance (alone_notifying rfl)

theorem alone_sleeps (hworker : s.worker = .awake) (hdropped : s.dropped = false)
    (hqueue : s.queue = []) : Alone routes s [] { s with worker := .asleep } :=
  .step (Advanced.sleeps hworker hdropped hqueue).advance .refl

/-- Alone with requests, the worker serves them as one batch and sleeps. -/
theorem alone_awake (hworker : s.worker = .awake) (hdropped : s.dropped = false)
    (hqueue : s.queue ≠ []) :
    Alone routes s (service s.queue)
      { s with site := (routes.restore s.site (toRestore s.queue)).2, queue := [],
               worker := .asleep } := by
  have hserved : Alone routes s (service s.queue)
      { s with site := (routes.restore s.site (toRestore s.queue)).2, queue := [],
               worker := .awake } :=
    .step (Advanced.takes hworker hdropped hqueue).advance (alone_holding rfl)
  have hall := hserved.trans (alone_sleeps rfl hdropped rfl)
  rwa [List.append_nil] at hall

/-! ## What requests get -/

/-- Where requests and batches stand, and what becomes of them. -/
structure Served (routes : Routes σ) (site : Site σ) (log : List Event) (s : Scheduler σ) :
    Prop where
  /-- Each request is in one batch, in the order of arrival, or queued. -/
  arrivals : requests log = (batches log).flatten ++ s.queue
  /-- Each batch has had its service, but for what is left of the last one. -/
  services : performed log ++ outstanding s.worker = (batches log).flatMap service
  /-- Each restore of the log is a step of the run that called the dispatcher once, for just these
  declarations. -/
  restores : ∀ before ds later, log = before ++ .restored ds :: later →
    ∃ s₁ s₂, Runs routes site before s₁ ∧ Restores routes ds s₁ s₂ ∧ Goes routes 0 s₂ later s
  /-- A step of the worker that logs no restore leaves the site alone. -/
  untouched : ∀ events s', s.advance routes = some (events, s') →
    (∀ ds, .restored ds ∉ events) → s'.site = s.site
  /-- Each request is answered when the worker has gone far enough, whatever others do meanwhile,
  short of dropping the scheduler. -/
  answers : ∀ before r later, log = before ++ .requested r :: later →
    ∃ n, ∀ more s', Goes routes n s more s' → s'.dropped = false → Answered r (later ++ more)
  /-- The worker can always go on, or has nothing left to do. -/
  proceeds : s.worker ≠ .absent → s.dropped = false →
    (∃ events s', s.advance routes = some (events, s')) ∨
      s.worker = .asleep ∧ s.queue = [] ∧
        ∀ before r later, log = before ++ .requested r :: later → Answered r later

/-- A worker that can do nothing sleeps, has not been started, or has come to an end. -/
theorem exists_advance_or (routes : Routes σ) (s : Scheduler σ) :
    (∃ events s', s.advance routes = some (events, s')) ∨
      s.worker = .absent ∨ s.worker = .asleep ∨ s.worker = .stopped := by
  cases hworker : s.worker with
  | absent | asleep | stopped => simp
  | awake =>
    refine .inl ?_
    by_cases hdropped : s.dropped = true
    · exact ⟨_, _, (Advanced.stops hworker hdropped).advance⟩
    · by_cases hqueue : s.queue = []
      · exact ⟨_, _, (Advanced.sleeps hworker (Bool.eq_false_iff.2 hdropped) hqueue).advance⟩
      · exact ⟨_, _, (Advanced.takes hworker (Bool.eq_false_iff.2 hdropped) hqueue).advance⟩
  | holding batch => exact .inl ⟨_, _, (Advanced.restores hworker).advance⟩
  | notifying documents =>
    cases documents with
    | nil => exact .inl ⟨_, _, (Advanced.wakes hworker).advance⟩
    | cons document rest => exact .inl ⟨_, _, (Advanced.notifies hworker).advance⟩

/-- Whatever the order in which requests are made and the worker gets around to them, no request
is lost, and none is served twice. -/
theorem Runs.served (h : Runs routes site log s) : Served routes site log s where
  arrivals := h.accounted.arrivals
  services := h.accounted.services
  restores _ _ _ := h.exists_restores
  untouched _ _ := site_of_advance
  answers _ _ _ hlog := by
    obtain ⟨n, hway⟩ := h.underway hlog
    exact ⟨n, fun _ _ hgoes hdropped => (hway.goes hgoes).answered_of_zero hdropped⟩
  proceeds hstarted hdropped := by
    rcases exists_advance_or routes s with hadvance | habsent | hasleep | hstopped
    · exact .inl hadvance
    · exact absurd habsent hstarted
    · have hqueue := h.accounted.sleeping hasleep
      refine .inr ⟨hasleep, hqueue, fun _ _ _ hlog => ?_⟩
      obtain ⟨n, hway⟩ := h.underway hlog
      exact hway.answered_of_asleep hasleep hqueue
    · rw [h.accounted.ended hstopped] at hdropped
      cases hdropped

end Scheduler

/-- The batch of a server is what the worker does alone, all at once. -/
theorem Server.alone_work {σ : Type} {c : Server.Config σ} {x : Server σ} (h : x.queue ≠ []) :
    Scheduler.Alone c.setting.routes ⟨x.site, x.queue, .awake, false⟩ (Scheduler.service x.queue)
        ⟨(x.work c).site, (x.work c).queue, .asleep, false⟩ ∧
      (x.work c).notices = x.notices ++ Scheduler.toNotify x.queue := by
  have hwork : x.work c =
      { x with site := (c.setting.routes.restore x.site (Scheduler.toRestore x.queue)).2,
               queue := [], notices := x.notices ++ Scheduler.toNotify x.queue } := by
    rw [work, if_neg fun hempty => h (List.isEmpty_iff.1 hempty), Routes.restoreRequests,
      distinctDeclarations_eq_eraseDupsBy, distinctDocuments_eq_eraseDups]
    rfl
  rw [hwork]
  exact ⟨Scheduler.alone_awake rfl rfl h, rfl⟩

namespace Sample

open Scheduler

/-- The entry file waits for both of its modules. -/
def mainRequest : RestoreRequest := ⟨main, (SourceFile.parse main mainText).declarations⟩

def partRequest : RestoreRequest := ⟨part, (SourceFile.parse part partText).declarations⟩

/-- A request is made twice before the worker is started, and another one while it is at the first
batch. By then it has restored that batch, and the second module is there. -/
theorem runs_late : ∃ log s, Runs setting.routes site log s ∧
    requests log = [mainRequest, mainRequest, partRequest] ∧
      batches log = [[mainRequest, mainRequest]] ∧
        s.site = (setting.routes.restore site (toRestore [mainRequest, mainRequest])).2 := by
  have hcreated : Runs setting.routes site [] (create site) := .create
  have hrequested := (hcreated.step (.request mainRequest rfl)).step (.request mainRequest rfl)
  have htaken : Runs setting.routes site
      [.requested mainRequest, .requested mainRequest, .taken [mainRequest, mainRequest]]
      ⟨site, [], .holding [mainRequest, mainRequest], false⟩ :=
    (hrequested.step (.start rfl)).step
      (.advance (Advanced.takes rfl rfl (List.cons_ne_nil mainRequest [mainRequest])).advance)
  have hlate := (htaken.step (.request partRequest rfl)).step
    (.advance (Advanced.restores rfl).advance)
  have hnotified := hlate.step (.advance
    (Advanced.notifies (congrArg Worker.notifying (by decide +kernel :
      toNotify [mainRequest, mainRequest] = [main]))).advance)
  exact ⟨_, _, hnotified, rfl, rfl, by simp only [request]⟩

/-- All of them are served. -/
theorem served_late : ∃ log s, Runs setting.routes site log s ∧
    Served setting.routes site log s ∧
      requests log = [mainRequest, mainRequest, partRequest] ∧
        batches log = [[mainRequest, mainRequest]] ∧
          site.world = false ∧ s.site.world = true := by
  obtain ⟨log, s, h, hrequests, hbatches, hsite⟩ := runs_late
  refine ⟨log, s, h, h.served, hrequests, hbatches, rfl, ?_⟩
  rw [hsite]
  decide +kernel

end Sample

end ModuleGraph
