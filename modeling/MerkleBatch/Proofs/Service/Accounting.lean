import MerkleBatch.Proofs.Service.Classification
import Mathlib.Data.List.Perm.Basic

/-!
# The counters of a service

The handlers of requests for proofs run side by side and add to shared counters, one at a time. A
handler counts its request first and its outcome later, and in between the outcome is owed. Sums
do not depend on their order, so the counters account for every request under any schedule.

* `Call`: a request for a proof, and what the backend makes of it.
* `Pool`, `Step`, `Reach`: handlers at work, and the states that any schedule leads to.
* `Accounted`: the counters are the sum of what the handlers did, which is a part of their work.
* `Outcome.misread`: an error of reading behind the checks; it is counted in another place than it
  is answered, and the library's own worker never ends in one.
* `Pool.counters_account`: no request is lost, and the counters are those of the answers.
-/

namespace MerkleBatch

/-! ## Single updates -/

namespace Update

/-- Whether the counter is one of outcomes. -/
def isOutcome : Update → Bool
  | proof | malformed | rejected | backendFailure => true
  | request | provingTime _ => false

end Update

namespace Metrics

theorem add_right_comm (m : Metrics) (u v : Update) : (m.add u).add v = (m.add v).add u := by
  have hcomm (x y z : UInt64) : x + y + z = x + z + y := by
    rw [UInt64.add_assoc, UInt64.add_comm y, UInt64.add_assoc]
  cases u <;> cases v <;> simp [add, hcomm]

instance : RightCommutative add := ⟨add_right_comm⟩

/-- A counter that one kind of updates adds one to tells how many of them there were. -/
theorem counter_foldl {read : Metrics → UInt64} {u : Update}
    (h : ∀ m v, read (add m v) = if v = u then read m + 1 else read m) (us : List Update)
    (m : Metrics) : read (us.foldl add m) = read m + .ofNat (us.count u) := by
  induction us generalizing m with
  | nil => simp
  | cons v us ih =>
    rw [List.foldl_cons, ih, h, List.count_cons]
    by_cases hv : v = u
    · simp [hv, UInt64.ofNat_add, UInt64.add_assoc, UInt64.add_comm]
    · simp [hv]

end Metrics

/-! ## Handlers at work -/

/-- A request for a proof, and what the backend makes of it. -/
structure Call where
  request : Request
  body : ByteArray
  reaches : request.proofBody? = some body
  backend : Admitted → Attempt

namespace Call

/-- How the request ends. -/
def outcome (s : Shape) (c : Call) : Outcome := handle s c.backend c.body

/-- The answer to the request, which is the same for any counters. -/
def answer (s : Shape) (c : Call) : Response := (Service.respond s c.backend .zero c.request).1

/-- What the handler of the request adds to the counters, in order. -/
def updates (s : Shape) (c : Call) : List Update := (c.outcome s).events.flatMap Event.updates

theorem answer_eq (s : Shape) (c : Call) : c.answer s = .ofOutcome (c.outcome s) := by
  simp only [answer, Service.respond, c.reaches]
  rfl

/-- A handler that nobody interrupts leaves the counters that the service has after the request. -/
theorem respond_eq (s : Shape) (c : Call) (m : Metrics) :
    Service.respond s c.backend m c.request = (c.answer s, (c.updates s).foldl Metrics.add m) := by
  rw [answer_eq, updates, ← Metrics.recordAll_eq_foldl]
  simp only [Service.respond, c.reaches]
  rfl

end Call

/-- A handler: the updates that it did and those that it has left to do. -/
structure Handler where
  done : List Update
  todo : List Update

namespace Handler

/-- The handler has counted its request, but not its outcome. -/
def pending (h : Handler) : Bool := .request ∈ h.done ∧ ∀ u ∈ h.done, u.isOutcome = false

end Handler

/-- Handlers at work on shared counters. -/
structure Pool where
  metrics : Metrics
  handlers : List Handler

namespace Pool

/-- Nothing is counted yet. -/
def start (s : Shape) (calls : List Call) : Pool := ⟨.zero, calls.map fun c => ⟨[], c.updates s⟩⟩

/-- All handlers are done. -/
def Finished (p : Pool) : Prop := ∀ h ∈ p.handlers, h.todo = []

/-- One handler does its next update. -/
inductive Step : Pool → Pool → Prop where
  | update {m : Metrics} {before after : List Handler} {u : Update} {done todo : List Update} :
    Step ⟨m, before ++ ⟨done, u :: todo⟩ :: after⟩
      ⟨m.add u, before ++ ⟨done ++ [u], todo⟩ :: after⟩

/-- The pools that any schedule leads to. -/
inductive Reach (s : Shape) (calls : List Call) : Pool → Prop where
  | start : Reach s calls (start s calls)
  | step {p p' : Pool} (h : Reach s calls p) (hstep : Step p p') : Reach s calls p'

/-! ## What every schedule keeps -/

/-- The counters are the sum of what the handlers did, which is a part of their work. -/
structure Accounted (s : Shape) (calls : List Call) (p : Pool) : Prop where
  metrics : p.metrics = (p.handlers.flatMap Handler.done).foldl Metrics.add .zero
  handlers : p.handlers.map (fun h => h.done ++ h.todo) = calls.map (Call.updates s)

variable {s : Shape} {calls : List Call} {p p' : Pool}

theorem accounted_start (s : Shape) (calls : List Call) : Accounted s calls (start s calls) := by
  constructor
  · have hnone : (start s calls).handlers.flatMap Handler.done = [] := by
      simp [start, List.flatMap_map]
    rw [hnone]
    rfl
  · simp [start]

/-- Sums do not depend on the order, so it does not matter which handler is next. -/
theorem Accounted.step (h : Accounted s calls p) (hstep : Step p p') : Accounted s calls p' := by
  obtain @⟨m, before, after, u, done, todo⟩ := hstep
  constructor
  · have hperm : ((before ++ ⟨done ++ [u], todo⟩ :: after).flatMap Handler.done).Perm
        ((before ++ ⟨done, u :: todo⟩ :: after).flatMap Handler.done ++ [u]) := by
      simp only [List.flatMap_append, List.flatMap_cons, List.append_assoc]
      exact (List.perm_append_comm.append_left _).append_left _
    have hm := h.metrics
    rw [hperm.foldl_eq, List.foldl_append, ← hm]
    rfl
  · have hhandlers := h.handlers
    simpa using hhandlers

theorem Reach.accounted (h : Reach s calls p) : Accounted s calls p := by
  induction h with
  | start => exact accounted_start s calls
  | step _ hstep ih => exact ih.step hstep

theorem Accounted.counter (h : Accounted s calls p) {read : Metrics → UInt64} {u : Update}
    (hzero : read .zero = 0)
    (hread : ∀ m v, read (m.add v) = if v = u then read m + 1 else read m) :
    read p.metrics = .ofNat ((p.handlers.flatMap Handler.done).count u) := by
  rw [h.metrics, Metrics.counter_foldl hread, hzero, UInt64.zero_add]

/-- The counters of a pool, by the updates that its handlers did. -/
theorem Accounted.counters (h : Accounted s calls p) :
    p.metrics.requestsTotal = .ofNat ((p.handlers.flatMap Handler.done).count .request) ∧
      p.metrics.proofsGenerated = .ofNat ((p.handlers.flatMap Handler.done).count .proof) ∧
      p.metrics.malformedRequests = .ofNat ((p.handlers.flatMap Handler.done).count .malformed) ∧
      p.metrics.rejectedBatches = .ofNat ((p.handlers.flatMap Handler.done).count .rejected) ∧
      p.metrics.backendFailures =
        .ofNat ((p.handlers.flatMap Handler.done).count .backendFailure) :=
  ⟨h.counter rfl fun m v => by cases v <;> rfl, h.counter rfl fun m v => by cases v <;> rfl,
    h.counter rfl fun m v => by cases v <;> rfl, h.counter rfl fun m v => by cases v <;> rfl,
    h.counter rfl fun m v => by cases v <;> rfl⟩

/-- The number of outcomes among some updates. -/
def outcomes (us : List Update) : Nat :=
  us.count .proof + us.count .malformed + us.count .rejected + us.count .backendFailure

/-- A handler counts its request, then its outcome, and then the time if there is one. -/
theorem exists_updates (o : Outcome) : ∃ u more,
    o.events.flatMap Event.updates = .request :: u :: more ∧ u.isOutcome = true ∧
      ∀ v ∈ more, ∃ milliseconds, v = .provingTime milliseconds := by
  have herror : ∀ e : Error, ∃ u, (Event.ofError e).updates = [u] ∧ u.isOutcome = true := by
    intro e
    cases e <;> exact ⟨_, rfl, rfl⟩
  cases o with
  | proven proof elapsed => exact ⟨_, _, rfl, rfl, by simp⟩
  | malformed e | failed e =>
    obtain ⟨u, hu, houtcome⟩ := herror e
    refine ⟨u, [], ?_, houtcome, nofun⟩
    rw [Outcome.events, Outcome.event, List.flatMap_cons, List.flatMap_singleton, hu]
    rfl
  | stopped => exact ⟨_, _, rfl, rfl, nofun⟩

/-- A part of a handler's work has its request before its outcome. -/
theorem count_done {o : Outcome} {h : Handler}
    (hwork : h.done ++ h.todo = o.events.flatMap Event.updates) :
    h.done.count .request = outcomes h.done + if h.pending then 1 else 0 := by
  obtain ⟨done, todo⟩ := h
  obtain ⟨u, more, hupdates, hu, hmore⟩ := exists_updates o
  rw [hupdates] at hwork
  match done with
  | [] => simp [outcomes, Handler.pending]
  | [v] =>
    obtain rfl : v = .request := (List.cons.inj hwork).1
    simp [outcomes, Handler.pending, Update.isOutcome]
  | v :: w :: rest =>
    obtain ⟨rfl, hbehind⟩ := List.cons.inj hwork
    obtain ⟨rfl, hlast⟩ := List.cons.inj hbehind
    have hrest : ∀ v, v = .request ∨ v.isOutcome = true → rest.count v = 0 := by
      intro v hv
      refine List.count_eq_zero.mpr fun hmem => ?_
      obtain ⟨ms, rfl⟩ := hmore v (hlast ▸ List.mem_append_left todo hmem)
      simp [Update.isOutcome] at hv
    have hpending : Handler.pending ⟨.request :: w :: rest, todo⟩ = false := by
      simp [Handler.pending, hu]
    rw [hpending, outcomes]
    simp only [List.count_cons, hrest .request (.inl rfl), hrest .proof (.inr rfl),
      hrest .malformed (.inr rfl), hrest .rejected (.inr rfl), hrest .backendFailure (.inr rfl)]
    cases w <;> first | rfl | cases hu

/-- Among what the handlers did are as many requests as outcomes, but for those that owe one. -/
theorem count_flatMap_done {handlers : List Handler}
    (hwork : ∀ h ∈ handlers, ∃ o : Outcome, h.done ++ h.todo = o.events.flatMap Event.updates) :
    (handlers.flatMap Handler.done).count .request =
      outcomes (handlers.flatMap Handler.done) + handlers.countP Handler.pending := by
  induction handlers with
  | nil => rfl
  | cons h rest ih =>
    obtain ⟨⟨o, ho⟩, hrest⟩ := List.forall_mem_cons.mp hwork
    have hfirst := count_done ho
    have hrest := ih hrest
    simp only [outcomes] at *
    simp only [List.flatMap_cons, List.count_append, List.countP_cons]
    omega

theorem Accounted.exists_outcome (h : Accounted s calls p) :
    ∀ handler ∈ p.handlers, ∃ o : Outcome,
      handler.done ++ handler.todo = o.events.flatMap Event.updates := by
  intro handler hmem
  have hwork : handler.done ++ handler.todo ∈ calls.map (Call.updates s) := by
    rw [← h.handlers]
    exact List.mem_map_of_mem hmem
  obtain ⟨c, -, hc⟩ := List.mem_map.mp hwork
  exact ⟨c.outcome s, hc.symm⟩

/-- Every request that was counted has an outcome that was counted, or owes one. -/
theorem Accounted.requestsTotal_eq (h : Accounted s calls p) :
    p.metrics.requestsTotal =
      p.metrics.proofsGenerated + p.metrics.malformedRequests + p.metrics.rejectedBatches +
        p.metrics.backendFailures + .ofNat (p.handlers.countP Handler.pending) := by
  obtain ⟨hrequests, hproofs, hmalformed, hrejected, hfailures⟩ := h.counters
  rw [hrequests, hproofs, hmalformed, hrejected, hfailures, count_flatMap_done h.exists_outcome,
    outcomes]
  simp only [UInt64.ofNat_add]

/-! ## Counters and answers -/

theorem Accounted.done_eq (h : Accounted s calls p) (hfinished : p.Finished) :
    p.handlers.flatMap Handler.done = calls.flatMap (Call.updates s) := by
  rw [List.flatMap_def, List.flatMap_def, ← h.handlers]
  congr 1
  refine List.map_congr_left fun handler hmem => ?_
  rw [hfinished handler hmem, List.append_nil]

end Pool

namespace Response

/-- The answer holds a proof. -/
def isProof (r : Response) : Bool := r.status = 200

/-- The answer says that the body holds no batch. -/
def isMalformed (r : Response) : Bool := r.status = 400 ∧ r.code? = some "malformed_body"

/-- The answer turns the batch away. -/
def isRejected (r : Response) : Bool := r.status = 400 ∧ r.code? = some "proving_error"

/-- The answer tells of a failure. -/
def isFailure (r : Response) : Bool := r.status = 500

end Response

namespace Event

/-- An error that is not one of reading is counted by its status. -/
theorem ofError_eq {e : Error} (h : ofError e ≠ malformed) :
    ofError e = if e.isInputError then rejected else backendFailure := by
  cases e <;> first | rfl | exact absurd rfl h

/-- An error of reading is one of the input. -/
theorem isInputError_of_ofError {e : Error} (h : ofError e = malformed) : e.isInputError = true := by
  cases e <;> first | rfl | cases h

end Event

namespace Outcome

/-- The error of a request whose body holds no batch is one of reading. -/
def Sound : Outcome → Prop
  | malformed e => Event.ofError e = .malformed
  | proven _ _ | failed _ | stopped => True

/-- The body held a batch, but the request ends in an error of reading. -/
def misread : Outcome → Bool
  | failed e => Event.ofError e = .malformed
  | proven _ _ | malformed _ | stopped => false

/-- The counters of outcomes and the kinds of answers agree, but for an error of reading that comes
after the body was read: it is counted with the malformed requests and answered as a rejection. -/
theorem Sound.count_updates {o : Outcome} (h : o.Sound) :
    (o.events.flatMap Event.updates).count .proof =
        (if (Response.ofOutcome o).isProof then 1 else 0) ∧
      (o.events.flatMap Event.updates).count .malformed =
        (if (Response.ofOutcome o).isMalformed then 1 else 0) + (if o.misread then 1 else 0) ∧
      (o.events.flatMap Event.updates).count .rejected + (if o.misread then 1 else 0) =
        (if (Response.ofOutcome o).isRejected then 1 else 0) ∧
      (o.events.flatMap Event.updates).count .backendFailure =
        (if (Response.ofOutcome o).isFailure then 1 else 0) := by
  cases o with
  | proven proof elapsed => exact ⟨rfl, rfl, rfl, rfl⟩
  | malformed e =>
    have hevent : Event.ofError e = .malformed := h
    rw [events, event, hevent]
    exact ⟨rfl, rfl, rfl, rfl⟩
  | failed e =>
    rw [events, event, Response.ofOutcome, Response.errorStatus]
    by_cases hread : Event.ofError e = .malformed
    · rw [hread, Event.isInputError_of_ofError hread, misread, hread]
      exact ⟨rfl, rfl, rfl, rfl⟩
    · rw [Event.ofError_eq hread, misread, decide_eq_false hread]
      cases e.isInputError <;> exact ⟨rfl, rfl, rfl, rfl⟩
  | stopped => exact ⟨rfl, rfl, rfl, rfl⟩

end Outcome

theorem readBatch_error {body : ByteArray} {e : Error} (h : readBatch body = .error e) :
    Event.ofError e = .malformed := by
  have hfault : ∀ fault : Json.Fault, Event.ofError (Error.ofFault fault) = .malformed := by
    intro fault
    cases fault <;> rfl
  rw [readBatch] at h
  split at h
  · cases h
    rfl
  · rename_i text _
    rw [Batch.ofJson?] at h
    cases hdecode : Json.decode WrittenBatch.record.reader
        (fun w => w.toBatch.mapError Batch.refuse) text with
    | error fault =>
      rw [hdecode] at h
      rw [← Except.error.inj h]
      exact hfault fault
    | ok b =>
      rw [hdecode] at h
      cases h

/-- A request ends with the body, with a check, or with what the backend makes of the batch. -/
theorem handle_cases (s : Shape) (backend : Admitted → Attempt) (body : ByteArray) :
    (∃ e, readBatch body = .error e ∧ handle s backend body = .malformed e) ∨
      (∃ b f, s.examine b = .error f ∧ handle s backend body = .ofFailure f) ∨
      ∃ a, handle s backend body = .ofAttempt (backend a) := by
  rw [handle, admitBody]
  cases readBatch body with
  | error e => exact .inl ⟨e, rfl, rfl⟩
  | ok b =>
    cases hexamine : s.examine b with
    | error f => exact .inr (.inl ⟨b, f, hexamine, by simp only [hexamine]; rfl⟩)
    | ok a => exact .inr (.inr ⟨a, by simp only [hexamine]; rfl⟩)

/-- A request whose body holds no batch ends in an error of reading. -/
theorem handle_sound (s : Shape) (backend : Admitted → Attempt) (body : ByteArray) :
    (handle s backend body).Sound := by
  rcases handle_cases s backend body with ⟨e, hread, h⟩ | ⟨b, f, -, h⟩ | ⟨a, h⟩ <;> rw [h]
  · exact readBatch_error hread
  · cases f <;> trivial
  · cases backend a <;> trivial

/-- The checks end in no error of reading once the body was read; only the backend may. -/
theorem exists_failed_of_misread {s : Shape} {backend : Admitted → Attempt} {body : ByteArray}
    (hmisread : (handle s backend body).misread = true) :
    ∃ a e, backend a = .failed e ∧ Event.ofError e = .malformed := by
  rcases handle_cases s backend body with ⟨e, -, h⟩ | ⟨b, f, hexamine, h⟩ | ⟨a, h⟩ <;>
    rw [h] at hmisread
  · cases hmisread
  · rcases Shape.examine_error hexamine with ⟨e, rfl⟩ | ⟨message, rfl⟩ | ⟨-, overflow, -, rfl⟩ <;>
      cases hmisread
  · cases hattempt : backend a with
    | failed e =>
      rw [hattempt] at hmisread
      exact ⟨a, e, hattempt, of_decide_eq_true hmisread⟩
    | proven proof elapsed => cases hattempt ▸ hmisread
    | stopped => cases hattempt ▸ hmisread

namespace Call

/-- The request was read, but ends in an error of reading. -/
def misread (s : Shape) (c : Call) : Bool := (c.outcome s).misread

theorem count_updates (s : Shape) (c : Call) :
    (c.updates s).count .proof = (if (c.answer s).isProof then 1 else 0) ∧
      (c.updates s).count .malformed =
        (if (c.answer s).isMalformed then 1 else 0) + (if c.misread s then 1 else 0) ∧
      (c.updates s).count .rejected + (if c.misread s then 1 else 0) =
        (if (c.answer s).isRejected then 1 else 0) ∧
      (c.updates s).count .backendFailure = (if (c.answer s).isFailure then 1 else 0) := by
  rw [answer_eq]
  exact (handle_sound s c.backend c.body).count_updates

/-- What a run of all calls counts, by the kinds of their answers. -/
theorem count_flatMap_updates (s : Shape) (calls : List Call) :
    (calls.flatMap (updates s)).count .proof = calls.countP (fun c => (c.answer s).isProof) ∧
      (calls.flatMap (updates s)).count .malformed =
        calls.countP (fun c => (c.answer s).isMalformed) + calls.countP (misread s) ∧
      (calls.flatMap (updates s)).count .rejected + calls.countP (misread s) =
        calls.countP (fun c => (c.answer s).isRejected) ∧
      (calls.flatMap (updates s)).count .backendFailure =
        calls.countP (fun c => (c.answer s).isFailure) := by
  induction calls with
  | nil => exact ⟨rfl, rfl, rfl, rfl⟩
  | cons c rest ih =>
    have hfirst := c.count_updates s
    simp only [List.flatMap_cons, List.count_append, List.countP_cons]
    omega

end Call

namespace Pool

variable {s : Shape} {calls : List Call} {p : Pool}

/-- When all handlers are done, the counters of outcomes are the numbers of answers of each kind, up
to the misread requests. -/
theorem Accounted.finished (h : Accounted s calls p) (hfinished : p.Finished) :
    p.metrics.proofsGenerated = .ofNat (calls.countP fun c => (c.answer s).isProof) ∧
      p.metrics.malformedRequests = .ofNat (calls.countP fun c => (c.answer s).isMalformed) +
        .ofNat (calls.countP (Call.misread s)) ∧
      p.metrics.rejectedBatches + .ofNat (calls.countP (Call.misread s)) =
        .ofNat (calls.countP fun c => (c.answer s).isRejected) ∧
      p.metrics.backendFailures = .ofNat (calls.countP fun c => (c.answer s).isFailure) := by
  obtain ⟨-, hproofs, hmalformed, hrejected, hfailures⟩ := h.counters
  obtain ⟨hp, hm, hr, hf⟩ := Call.count_flatMap_updates s calls
  rw [hproofs, hmalformed, hrejected, hfailures, h.done_eq hfinished, hp, hm, hf,
    ← UInt64.ofNat_add, ← UInt64.ofNat_add, hr]
  exact ⟨rfl, rfl, rfl, rfl⟩

/-- A handler that runs alone answers and counts as the service does. Under any schedule of the
handlers no request is lost, and when all are done the counters of outcomes are the numbers of
answers of each kind, unless a backend fails with an error of reading. Such an error is counted
with the malformed requests and answered as a rejection, but no proof system leads the library's
worker to one. Other requests count nothing. -/
theorem counters_account (h : Reach s calls p) :
    (∀ c ∈ calls, ∀ m, Service.respond s c.backend m c.request =
        (c.answer s, (c.updates s).foldl Metrics.add m)) ∧
      p.metrics.requestsTotal =
        p.metrics.proofsGenerated + p.metrics.malformedRequests + p.metrics.rejectedBatches +
          p.metrics.backendFailures + .ofNat (p.handlers.countP Handler.pending) ∧
      (p.Finished →
        p.metrics.proofsGenerated = .ofNat (calls.countP fun c => (c.answer s).isProof) ∧
        p.metrics.malformedRequests = .ofNat (calls.countP fun c => (c.answer s).isMalformed) +
          .ofNat (calls.countP (Call.misread s)) ∧
        p.metrics.rejectedBatches + .ofNat (calls.countP (Call.misread s)) =
          .ofNat (calls.countP fun c => (c.answer s).isRejected) ∧
        p.metrics.backendFailures = .ofNat (calls.countP fun c => (c.answer s).isFailure)) ∧
      (p.Finished →
        (∀ c ∈ calls, ∀ a e, c.backend a = .failed e → Event.ofError e ≠ .malformed) →
        p.metrics.proofsGenerated = .ofNat (calls.countP fun c => (c.answer s).isProof) ∧
        p.metrics.malformedRequests = .ofNat (calls.countP fun c => (c.answer s).isMalformed) ∧
        p.metrics.rejectedBatches = .ofNat (calls.countP fun c => (c.answer s).isRejected) ∧
        p.metrics.backendFailures = .ofNat (calls.countP fun c => (c.answer s).isFailure)) ∧
      (∀ (Folded Compressed : Type) (b : Backend Folded Compressed) elapsed a e,
        b.attempt elapsed a = .failed e → Event.ofError e ≠ .malformed) ∧
      ∀ backend m r, r.proofBody? = none → (Service.respond s backend m r).2 = m := by
  refine ⟨fun c _ m => c.respond_eq s m, h.accounted.requestsTotal_eq, h.accounted.finished,
    fun hfinished hread => ?_, fun _ _ b elapsed a e he => ?_, fun backend m r hr => ?_⟩
  · have hnone : calls.countP (Call.misread s) = 0 := by
      refine List.countP_eq_zero.mpr fun c hc hmisread => ?_
      obtain ⟨a, e, hfailed, he⟩ := exists_failed_of_misread hmisread
      exact hread c hc a e hfailed he
    obtain ⟨hproofs, hmalformed, hrejected, hfailures⟩ := h.accounted.finished hfinished
    rw [hnone] at hmalformed hrejected
    exact ⟨hproofs, by simpa using hmalformed, by simpa using hrejected, hfailures⟩
  · intro hread
    have hbackend := Backend.attempt_failed he
    rw [Event.isInputError_of_ofError hread] at hbackend
    cases hbackend
  · simp only [Service.respond, hr]

/-- A request that has no body. -/
theorem exists_call_empty : ∃ c : Call, c.outcome ⟨1, 1⟩ = .malformed .malformed ∧
    ∀ a, c.backend a = .stopped := by
  have hread : readBatch ByteArray.empty = .error .malformed := by decide +kernel
  refine ⟨⟨⟨.prover, "POST", "/prove", ByteArray.empty⟩, ByteArray.empty, by decide,
    fun _ => .stopped⟩, ?_, fun _ => rfl⟩
  rw [Call.outcome, handle, admitBody, hread]

/-- A request for a batch of another shape. -/
theorem exists_call_refused {b : Batch} {e : ShapeError}
    (hbody : ∃ r : Request, r.proofBody? = some b.toJson.toUTF8) (he : s.accepts b = .error e) :
    ∃ c : Call, c.outcome s = .failed (.shape e) ∧ ∀ a, c.backend a = .stopped := by
  obtain ⟨r, hr⟩ := hbody
  refine ⟨⟨r, _, hr, fun _ => .stopped⟩, ?_, fun _ => rfl⟩
  rw [Call.outcome, handle, admitBody, readBatch_eq_ok_iff.mpr (holdsBatch_toJson b)]
  simp only [Shape.examine, he]
  rfl

/-- A request without a batch and one whose batch has no leaves come in before the outcome of either
is counted. -/
theorem counters_account_overlapping :
    ∃ (empty leafless : Call) (p : Pool), Reach ⟨1, 1⟩ [empty, leafless] p ∧ p.Finished ∧
      p.metrics = ⟨2, 0, 1, 1, 0, 0⟩ ∧
      (empty.answer ⟨1, 1⟩).isMalformed = true ∧ (leafless.answer ⟨1, 1⟩).isRejected = true ∧
      p.metrics.malformedRequests =
        .ofNat ([empty, leafless].countP fun c => (c.answer ⟨1, 1⟩).isMalformed) ∧
      p.metrics.rejectedBatches =
        .ofNat ([empty, leafless].countP fun c => (c.answer ⟨1, 1⟩).isRejected) ∧
      Service.respond ⟨1, 1⟩ empty.backend ⟨5, 4, 1, 0, 0, 90⟩ empty.request =
        (empty.answer ⟨1, 1⟩, ⟨6, 4, 2, 0, 0, 90⟩) := by
  obtain ⟨empty, hempty, hemptyStops⟩ := exists_call_empty
  obtain ⟨leafless, hleafless, hleaflessStops⟩ :=
    exists_call_refused (s := ⟨1, 1⟩) Service.proofBody?_noLeaves rfl
  have hemptyWork : empty.updates ⟨1, 1⟩ = [.request, .malformed] := by
    rw [Call.updates, hempty]
    rfl
  have hleaflessWork : leafless.updates ⟨1, 1⟩ = [.request, .rejected] := by
    rw [Call.updates, hleafless]
    rfl
  have hstart : Reach ⟨1, 1⟩ [empty, leafless]
      ⟨.zero, [⟨[], [.request, .malformed]⟩, ⟨[], [.request, .rejected]⟩]⟩ := by
    have h : Reach ⟨1, 1⟩ [empty, leafless] (start ⟨1, 1⟩ [empty, leafless]) := .start
    rwa [start, List.map_cons, List.map_singleton, hemptyWork, hleaflessWork] at h
  have hrequests := (hstart.step (@Step.update _ [] _ _ _ _)).step (@Step.update _ [_] _ _ _ _)
  have hreach := (hrequests.step (@Step.update _ [] _ _ _ _)).step (@Step.update _ [_] _ _ _ _)
  obtain ⟨hrespond, -, -, hcounts, -, -⟩ := counters_account hreach
  obtain ⟨-, hmalformed, hrejected, -⟩ :=
    hcounts (by simp [Finished]) (by simp [hemptyStops, hleaflessStops])
  refine ⟨empty, leafless, _, hreach, by simp [Finished], rfl, ?_, ?_, hmalformed, hrejected, ?_⟩
  · rw [Call.answer_eq, hempty]
    rfl
  · rw [Call.answer_eq, hleafless]
    rfl
  · rw [hrespond empty (by simp), hemptyWork]
    rfl

end Pool

end MerkleBatch
