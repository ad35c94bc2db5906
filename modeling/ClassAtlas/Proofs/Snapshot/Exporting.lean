import ClassAtlas.Proofs.Files.Contents
import ClassAtlas.Snapshot.Exporter
import Mathlib.Data.List.Induction
import Mathlib.Logic.Relation

/-!
The exporter at work: callers note requests and send signals, and one worker handles what is pending,
all at their own pace. Jobs are handled in the order of their numbers and only the newest one is kept,
no request is overlooked, and when all have been handled, then the file holds what was asked for last,
or the error tells why it does not.
-/

namespace ClassAtlas

/-- What the worker does next. -/
inductive ExportWorker where
  /-- It is started with the first signal. -/
  | absent
  /-- It waits for a signal. -/
  | waiting
  /-- It looks for a pending request. -/
  | looking
  /-- It does a job that it has taken up, and goes by the state that it saw then. -/
  | working (job : ExportJob) (seen : ExportState)
  | publishing (job : ExportJob) (outcome : Except Error Bool)

namespace ExportWorker

/-- The worker once a signal has been sent. -/
def started : ExportWorker → ExportWorker
  | absent => waiting
  | worker => worker

/-- The job that has been taken up and not been published. -/
def job? : ExportWorker → Option ExportJob
  | working job _ => some job
  | publishing job _ => some job
  | _ => none

/-- Where an export went that has succeeded and not been published, and the fingerprint of its
units. -/
def written? : ExportWorker → Option (String × Bytes)
  | publishing job (.ok _) => some (job.path, Snapshot.fingerprint job.units)
  | _ => none

/-- Whether the worker is going to look for a pending request without another signal. -/
def isInside : ExportWorker → Bool
  | absent => false
  | waiting => false
  | _ => true

@[simp] theorem job?_started (w : ExportWorker) : w.started.job? = w.job? := by
  cases w <;> rfl

@[simp] theorem written?_started (w : ExportWorker) : w.started.written? = w.written? := by
  cases w <;> rfl

theorem started_eq_working {w : ExportWorker} {job : ExportJob} {s : ExportState}
    (h : w.started = working job s) : w = working job s := by
  cases w with
  | absent => cases h
  | _ => exact h

theorem job?_of_outside {w : ExportWorker} (h : w.isInside = false) : w.job? = none := by
  cases w <;> first | rfl | cases h

theorem written?_of_job? {w : ExportWorker} (h : w.job? = none) : w.written? = none := by
  cases w <;> first | rfl | cases h

theorem started_ne_absent (w : ExportWorker) : w.started ≠ absent := by
  cases w <;> simp [started]

end ExportWorker

/-- Callers, the worker, the channel between them and the files. -/
structure Exporting (σ : Type) where
  state : ExportState
  /-- How many callers have noted a request and not sent the signal yet. -/
  between : Nat
  /-- Whether there is a signal in the channel, which has room for one. -/
  signalled : Bool
  worker : ExportWorker
  files : σ
  /-- What has been asked for so far, in order. -/
  requests : List (String × List ClassUnit)
  /-- What has been published so far, in order. -/
  handled : List ExportJob

namespace Exporting

open FileAccess Snapshot

variable {σ : Type}

/-- Nothing has been asked for. -/
def start (files : σ) : Exporting σ :=
  ⟨.initial, 0, false, .absent, files, [], []⟩

/-- The jobs that have been taken up, and the one that is going to be unless another request
comes. -/
def jobs (x : Exporting σ) : List ExportJob :=
  x.handled ++ x.worker.job?.toList ++ x.state.pending.toList

theorem mem_jobs_of_handled {x : Exporting σ} {job : ExportJob} (h : job ∈ x.handled) :
    job ∈ x.jobs :=
  List.mem_append_left _ (List.mem_append_left _ h)

section

variable [FileAccess (StateM σ)]

/-- One step of a caller, of the worker, or of somebody who leaves the files alone that requests have
named. Requests note a job and send a signal in two steps; a signal is lost if there is one already. -/
inductive Step : Exporting σ → Exporting σ → Prop
  | request (x : Exporting σ) (path : String) (units : List ClassUnit) :
    Step x { x with
      state := x.state.request path units
      between := x.between + 1
      requests := x.requests ++ [(path, units)] }
  | signal (x : Exporting σ) {n : Nat} (h : x.between = n + 1) :
    Step x { x with between := n, signalled := true, worker := x.worker.started }
  | receive (x : Exporting σ) (hworker : x.worker = .waiting) (h : x.signalled = true) :
    Step x { x with signalled := false, worker := .looking }
  | take (x : Exporting σ) {job : ExportJob} {s : ExportState} (hworker : x.worker = .looking)
    (h : x.state.take? = some (job, s)) :
    Step x { x with state := s, worker := .working job s }
  | rest (x : Exporting σ) (hworker : x.worker = .looking) (h : x.state.take? = none) :
    Step x { x with worker := .waiting }
  | perform (x : Exporting σ) {job : ExportJob} {seen : ExportState} {files : σ}
    {outcome : Except Error Bool} (hworker : x.worker = .working job seen)
    (h : (Exporter.perform seen job : StateM σ _).run x.files = (outcome, files)) :
    Step x { x with files := files, worker := .publishing job outcome }
  | publish (x : Exporting σ) {job : ExportJob} {outcome : Except Error Bool}
    (hworker : x.worker = .publishing job outcome) :
    Step x { x with
      state := x.state.publish job outcome
      worker := .looking
      handled := x.handled ++ [job] }
  | elsewhere (x : Exporting σ) {files : σ}
    (h : ∀ r ∈ x.requests, ∀ content, Holds x.files r.1 content → Holds files r.1 content) :
    Step x { x with files := files }

/-- What can come about in any number of steps. -/
abbrev Steps : Exporting σ → Exporting σ → Prop :=
  Relation.ReflTransGen Step

end

/-! ### The order of jobs -/

/-- The number of the last job, or zero. -/
def lastNumber (jobs : List ExportJob) : Nat :=
  (jobs.getLast?.map (·.number)).getD 0

@[simp] theorem lastNumber_append_singleton (jobs : List ExportJob) (job : ExportJob) :
    lastNumber (jobs ++ [job]) = job.number := by
  simp [lastNumber]

/-- Jobs stand in the order of their numbers. -/
def Increasing (jobs : List ExportJob) : Prop :=
  jobs.Pairwise fun a b => a.number < b.number

theorem Increasing.le_lastNumber {jobs : List ExportJob} (h : Increasing jobs) {job : ExportJob}
    (hjob : job ∈ jobs) : job.number ≤ lastNumber jobs := by
  induction jobs using List.reverseRecOn with
  | nil => cases hjob
  | append_singleton jobs last _ =>
    rw [lastNumber_append_singleton]
    rcases List.mem_append.mp hjob with hjob | hjob
    · exact Nat.le_of_lt ((List.pairwise_append.mp h).2.2 job hjob last (by simp))
    · exact Nat.le_of_eq (congrArg _ (List.mem_singleton.mp hjob))

theorem lastNumber_le {jobs : List ExportJob} {n : Nat} (h : ∀ job ∈ jobs, job.number ≤ n) :
    lastNumber jobs ≤ n := by
  unfold lastNumber
  cases hlast : jobs.getLast? with
  | none => exact Nat.zero_le n
  | some job => exact h job (List.mem_of_getLast? hlast)

/-- The job is what the request of its number asks for; the first request has number one. -/
def IsRequest (requests : List (String × List ClassUnit)) (job : ExportJob) : Prop :=
  ∃ n, job.number = n + 1 ∧ requests[n]? = some (job.path, job.units)

theorem IsRequest.append {requests : List (String × List ClassUnit)} {job : ExportJob}
    (h : IsRequest requests job) (more : List (String × List ClassUnit)) :
    IsRequest (requests ++ more) job := by
  obtain ⟨n, hnumber, hn⟩ := h
  refine ⟨n, hnumber, ?_⟩
  rw [List.getElem?_append_left (List.getElem?_eq_some_iff.mp hn).1, hn]

theorem IsRequest.mem {requests : List (String × List ClassUnit)} {job : ExportJob}
    (h : IsRequest requests job) : (job.path, job.units) ∈ requests := by
  obtain ⟨n, _, hn⟩ := h
  exact List.mem_of_getElem? hn

/-- Jobs are requests in their order, the last job is the newest request, and the last one that has
been published tells how far the worker has come. -/
structure Ordered (x : Exporting σ) : Prop where
  requested : x.state.requested = x.requests.length
  newest : lastNumber x.jobs = x.state.requested
  completed : lastNumber x.handled = x.state.completed
  genuine : ∀ job ∈ x.jobs, IsRequest x.requests job
  increasing : Increasing x.jobs

/-- Only requests and publications change what the order is about. -/
theorem Ordered.congr {x y : Exporting σ} (hx : x.Ordered)
    (hrequested : y.state.requested = x.state.requested)
    (hcompleted : y.state.completed = x.state.completed) (hrequests : y.requests = x.requests)
    (hhandled : y.handled = x.handled) (hjobs : y.jobs = x.jobs) : y.Ordered where
  requested := by rw [hrequested, hrequests, hx.requested]
  newest := by rw [hjobs, hrequested, hx.newest]
  completed := by rw [hhandled, hcompleted, hx.completed]
  genuine := by rw [hjobs, hrequests]; exact hx.genuine
  increasing := by rw [hjobs]; exact hx.increasing

theorem start_ordered (files : σ) : (start files).Ordered where
  requested := rfl
  newest := rfl
  completed := rfl
  genuine job hjob := by cases hjob
  increasing := .nil

theorem take?_eq_some {s s' : ExportState} {job : ExportJob} :
    s.take? = some (job, s') ↔ s.pending = some job ∧ s' = { s with pending := none } := by
  rw [ExportState.take?, Option.map_eq_some_iff]
  constructor
  · rintro ⟨job, hpending, ⟨⟩⟩
    exact ⟨hpending, rfl⟩
  · rintro ⟨hpending, rfl⟩
    exact ⟨job, hpending, rfl⟩

theorem Ordered.request {x : Exporting σ} (hx : x.Ordered) (path : String)
    (units : List ClassUnit) : Ordered { x with
      state := x.state.request path units
      between := x.between + 1
      requests := x.requests ++ [(path, units)] } := by
  let job : ExportJob := ⟨x.state.requested + 1, path, units⟩
  let taken := x.handled ++ x.worker.job?.toList
  have hjobs : x.jobs = taken ++ x.state.pending.toList := rfl
  have htaken (j : ExportJob) (hj : j ∈ taken) : j ∈ x.jobs := List.mem_append_left _ hj
  have hjob : IsRequest (x.requests ++ [(path, units)]) job :=
    ⟨x.state.requested, rfl, by rw [hx.requested]; exact List.getElem?_concat_length⟩
  refine ⟨?_, ?_, hx.completed, ?_, ?_⟩
  · simp [ExportState.request, hx.requested]
  · exact lastNumber_append_singleton taken job
  · intro j hj
    rcases List.mem_append.mp hj with hj | hj
    · exact (hx.genuine j (htaken j hj)).append _
    · rw [List.mem_singleton.mp hj]
      exact hjob
  · refine List.pairwise_append.mpr ⟨(List.pairwise_append.mp hx.increasing).1, by simp, ?_⟩
    intro j hj newest hnewest
    have hle := hx.increasing.le_lastNumber (htaken j hj)
    rw [hx.newest] at hle
    rw [List.mem_singleton.mp hnewest]
    exact Nat.lt_succ_of_le hle

/-- What is published becomes the last job that has been handled. -/
theorem Ordered.publish {x : Exporting σ} (hx : x.Ordered) {job : ExportJob}
    {outcome : Except Error Bool} (hworker : x.worker = .publishing job outcome) :
    Ordered { x with
      state := x.state.publish job outcome
      worker := .looking
      handled := x.handled ++ [job] } := by
  have hjobs : x.jobs = x.handled ++ [job] ++ x.state.pending.toList := by
    simp [jobs, hworker, ExportWorker.job?]
  have hsame : Exporting.jobs { x with
      state := x.state.publish job outcome
      worker := .looking
      handled := x.handled ++ [job] } = x.jobs := by
    rw [hjobs]
    cases outcome <;> simp [jobs, ExportWorker.job?, ExportState.publish]
  have hrequested : (x.state.publish job outcome).requested = x.state.requested := by
    cases outcome <;> rfl
  have hcompleted : (x.state.publish job outcome).completed = job.number := by
    have hincreasing := (List.pairwise_append.mp (hjobs ▸ hx.increasing)).1
    have hlast : lastNumber x.handled ≤ job.number := lastNumber_le fun j hj =>
      Nat.le_of_lt ((List.pairwise_append.mp hincreasing).2.2 j hj job (by simp))
    rw [hx.completed] at hlast
    cases outcome <;> exact Nat.max_eq_right hlast
  refine ⟨?_, ?_, ?_, ?_, ?_⟩
  · rw [hrequested, hx.requested]
  · rw [hsame, hrequested, hx.newest]
  · rw [hcompleted, lastNumber_append_singleton]
  · rw [hsame]
    exact hx.genuine
  · rw [hsame]
    exact hx.increasing

theorem Ordered.completed_le {x : Exporting σ} (hx : x.Ordered) :
    x.state.completed ≤ x.state.requested := by
  rw [← hx.completed, ← hx.newest]
  exact lastNumber_le fun job hjob => hx.increasing.le_lastNumber (mem_jobs_of_handled hjob)

/-- When the last job that has been handled has the number of the last request, then there is nothing
left to do. -/
theorem Ordered.settled {x : Exporting σ} (hx : x.Ordered)
    (h : x.state.completed = x.state.requested) :
    x.worker.job? = none ∧ x.state.pending = none := by
  let rest := x.worker.job?.toList ++ x.state.pending.toList
  have hjobs : x.jobs = x.handled ++ rest := List.append_assoc ..
  have hrest : rest = [] := by
    by_contra hrest
    obtain ⟨before, newest, hlast⟩ := (List.eq_nil_or_concat rest).resolve_left hrest
    have hmem : newest ∈ rest := by simp [hlast]
    have hnewest : lastNumber x.jobs = newest.number := by
      rw [hjobs, hlast, List.concat_eq_append, ← List.append_assoc, lastNumber_append_singleton]
    obtain ⟨n, hn, _⟩ := hx.genuine newest (hjobs ▸ List.mem_append_right _ hmem)
    have hearlier : lastNumber x.handled ≤ n := lastNumber_le fun job hjob => by
      have hlt := (List.pairwise_append.mp (hjobs ▸ hx.increasing)).2.2 job hjob newest hmem
      omega
    rw [hx.completed, h, ← hx.newest, hnewest, hn] at hearlier
    omega
  simpa [rest] using hrest

/-- Then the last job that has been handled is the newest request. -/
theorem Ordered.last_handled {x : Exporting σ} (hx : x.Ordered)
    (h : x.state.completed = x.state.requested) (hpositive : 0 < x.state.requested) :
    ∃ job, x.handled.getLast? = some job ∧ x.requests.getLast? = some (job.path, job.units) := by
  have hcount : lastNumber x.handled = x.requests.length := by
    rw [hx.completed, h, hx.requested]
  cases hlast : x.handled.getLast? with
  | none =>
    rw [lastNumber, hlast, ← hx.requested] at hcount
    exact absurd hcount (Nat.ne_of_lt hpositive)
  | some job =>
    have hnumber : job.number = x.requests.length := by
      rw [← hcount, lastNumber, hlast]
      rfl
    obtain ⟨n, hn, hrequest⟩ := hx.genuine job (mem_jobs_of_handled (List.mem_of_getLast? hlast))
    refine ⟨job, rfl, ?_⟩
    rw [List.getLast?_eq_getElem?, ← hnumber, hn, Nat.add_sub_cancel, hrequest]

theorem Ordered.completed_eq {x : Exporting σ} (hx : x.Ordered) (hworker : x.worker.job? = none)
    (hpending : x.state.pending = none) : x.state.completed = x.state.requested := by
  have hjobs : x.jobs = x.handled := by simp [jobs, hworker, hpending]
  rw [← hx.completed, ← hx.newest, hjobs]

theorem step_ordered [FileAccess (StateM σ)] {x y : Exporting σ} (h : Step x y)
    (hx : x.Ordered) : y.Ordered := by
  cases h with
  | request path units => exact hx.request path units
  | signal hbetween =>
    refine hx.congr rfl rfl rfl rfl ?_
    simp only [jobs, ExportWorker.job?_started]
  | receive hworker =>
    exact hx.congr rfl rfl rfl rfl (by simp only [jobs, hworker]; rfl)
  | take hworker htake =>
    obtain ⟨hpending, rfl⟩ := take?_eq_some.mp htake
    refine hx.congr rfl rfl rfl rfl ?_
    simp [jobs, hworker, hpending, ExportWorker.job?]
  | rest hworker => exact hx.congr rfl rfl rfl rfl (by simp only [jobs, hworker]; rfl)
  | perform hworker => exact hx.congr rfl rfl rfl rfl (by simp only [jobs, hworker]; rfl)
  | publish hworker => exact hx.publish hworker
  | elsewhere => exact hx.congr rfl rfl rfl rfl rfl

/-! ### Signals -/

/-- What is pending is looked for: either a caller is still going to send a signal, or there is one, or
the worker needs none. -/
structure Awake (x : Exporting σ) : Prop where
  pending : x.state.pending.isSome → x.between = 0 →
    x.signalled = true ∨ x.worker.isInside = true
  started : x.signalled = true → x.worker ≠ .absent

theorem start_awake (files : σ) : (start files).Awake where
  pending h := by cases h
  started h := by cases h

theorem step_awake [FileAccess (StateM σ)] {x y : Exporting σ} (h : Step x y) (hx : x.Awake) :
    y.Awake := by
  cases h with
  | request path units => exact ⟨fun _ hnone => absurd hnone (Nat.succ_ne_zero _), hx.started⟩
  | signal hbetween => exact ⟨fun _ _ => .inl rfl, fun _ => x.worker.started_ne_absent⟩
  | receive hworker => exact ⟨fun _ _ => .inr rfl, fun h => by cases h⟩
  | take hworker htake => exact ⟨fun _ _ => .inr rfl, fun _ => by simp⟩
  | rest hworker htake =>
    have hnone : x.state.pending = none := Option.map_eq_none_iff.mp htake
    exact ⟨fun h => by simp [hnone] at h, fun _ => by simp⟩
  | perform hworker => exact ⟨fun _ _ => .inr rfl, fun _ => by simp⟩
  | publish hworker => exact ⟨fun _ _ => .inr rfl, fun _ => by simp⟩
  | elsewhere => exact ⟨hx.pending, hx.started⟩

/-! ### What is in the files -/

/-- Where the last export went that has succeeded, and the fingerprint of its units. -/
def written (x : Exporting σ) : Option (String × Bytes) :=
  x.worker.written?.or x.state.last

theorem written_eq_last {x : Exporting σ} (h : x.worker.written? = none) :
    x.written = x.state.last := by
  rw [written, h, Option.none_or]

theorem repeats_eq_true {s : ExportState} {job : ExportJob} (h : s.repeats job = true) :
    ∃ path, s.last = some (path, fingerprint job.units) ∧ Path.same path job.path = true := by
  unfold ExportState.repeats at h
  split at h
  · rename_i path units hlast
    rw [Bool.and_eq_true, beq_iff_eq] at h
    exact ⟨path, h.2 ▸ hlast, h.1⟩
  · cases h

section

variable [FileAccess (StateM σ)]

/-- All that the files held they still hold. -/
def Kept (files files' : σ) : Prop :=
  ∀ path content, Holds files path content → Holds files' path content

/-- Writing a snapshot puts the archive of the units at the path, or leaves all files alone. -/
theorem write_spec (hfiles : Reliable σ) {path : String} {units : List ClassUnit} {files files' : σ}
    {outcome : Except Error Unit}
    (h : (Snapshot.write path units : StateM σ _).run files = (outcome, files')) :
    match outcome with
    | .ok _ => ∃ content, archive units [] = .ok content ∧ Holds files' path content
    | .error _ => Kept files files' := by
  rcases hmake : (makeDirectory (directoryOf path) : StateM σ _).run files with ⟨made, files₁⟩
  have hmade : Kept files files₁ := by
    intro p content hp
    have hkept := hfiles.makeDirectory_kept hp (q := directoryOf path)
    rwa [hmake] at hkept
  rw [Snapshot.write, bind_run hmake] at h
  cases made with
  | error e =>
    cases h
    exact hmade
  | ok _ =>
    cases harchive : archive units [] with
    | error e =>
      rw [harchive] at h
      cases h
      exact hmade
    | ok content =>
      rcases hreplace : (replace path content : StateM σ _).run files₁ with ⟨replaced, files₂⟩
      rw [harchive] at h
      dsimp only at h
      rw [bind_run hreplace] at h
      cases replaced with
      | error e =>
        cases h
        intro p old hp
        have hkept := hfiles.replace_failed (congrArg Prod.fst hreplace) (hmade p old hp)
        rwa [hreplace] at hkept
      | ok _ =>
        cases h
        have hstored := hfiles.replace_done (congrArg Prod.fst hreplace)
        rw [hreplace] at hstored
        exact ⟨content, rfl, hstored⟩

/-- A job that is done has its archive in the file, written now or by the last export, and one that
fails leaves all files alone. -/
def Performed (seen : ExportState) (job : ExportJob) (files files' : σ) :
    Except Error Bool → Prop
  | .ok true => ∃ content, archive job.units [] = .ok content ∧ Holds files' job.path content
  | .ok false => seen.repeats job = true ∧ ∀ path content, Path.same path job.path →
      Holds files path content → Holds files' job.path content
  | .error _ => Kept files files'

/-- What doing a job amounts to, once it is known whether the archive is there already. -/
theorem perform_run {s : ExportState} {job : ExportJob} {files files₁ : σ} {there : Bool}
    (hlook : (if s.repeats job then present job.path else pure false : StateM σ Bool).run files =
      (there, files₁)) :
    (Exporter.perform s job : StateM σ _).run files =
      if there then (.ok false, files₁)
      else ((Snapshot.write job.path job.units : StateM σ _).run files₁).map
        (Except.map fun _ => true) id := by
  rcases hwrite : (Snapshot.write job.path job.units : StateM σ _).run files₁ with ⟨written, files₂⟩
  cases hrepeats : s.repeats job with
  | false =>
    rw [hrepeats] at hlook
    cases hlook
    simp only [Exporter.perform, hrepeats, Bool.false_eq_true, if_false, pure_bind]
    rw [bind_run hwrite]
    cases written <;> rfl
  | true =>
    rw [hrepeats, if_pos rfl] at hlook
    simp only [Exporter.perform, hrepeats, if_true]
    rw [bind_run hlook]
    cases there with
    | true => rfl
    | false =>
      simp only [Bool.false_eq_true, if_false]
      rw [bind_run hwrite]
      cases written <;> rfl

theorem look_spec (hfiles : Reliable σ) {s : ExportState} {job : ExportJob} {files files₁ : σ}
    {there : Bool}
    (hlook : (if s.repeats job then present job.path else pure false : StateM σ Bool).run files =
      (there, files₁)) :
    Kept files files₁ ∧ (there = true → s.repeats job = true ∧ ∀ path content,
      Path.same path job.path → Holds files path content → Holds files₁ job.path content) := by
  cases hrepeats : s.repeats job with
  | false =>
    rw [hrepeats] at hlook
    cases hlook
    exact ⟨fun _ _ hp => hp, nofun⟩
  | true =>
    rw [hrepeats, if_pos rfl] at hlook
    have hkept : Kept files files₁ := by
      intro p content hp
      have hkept := hfiles.present_kept hp (q := job.path)
      rwa [hlook] at hkept
    refine ⟨hkept, fun hthere => ⟨rfl, fun p content hsame hp => hkept _ _ ?_⟩⟩
    exact hfiles.same_file hsame hp ((congrArg Prod.fst hlook).trans hthere)

theorem perform_spec (hfiles : Reliable σ) {seen : ExportState} {job : ExportJob} {files files' : σ}
    {outcome : Except Error Bool}
    (h : (Exporter.perform seen job : StateM σ _).run files = (outcome, files')) :
    Performed seen job files files' outcome := by
  rcases hlook : (if seen.repeats job then present job.path else pure false : StateM σ Bool).run files
    with ⟨there, files₁⟩
  obtain ⟨hlooked, hthere⟩ := look_spec hfiles hlook
  rw [perform_run hlook] at h
  cases there with
  | true =>
    cases h
    exact hthere rfl
  | false =>
    rcases hwrite : (Snapshot.write job.path job.units : StateM σ _).run files₁ with ⟨written, files₂⟩
    have hspec := write_spec hfiles hwrite
    rw [hwrite] at h
    cases written with
    | ok _ =>
      cases h
      exact hspec
    | error e =>
      cases h
      exact fun p content hp => hspec p content (hlooked p content hp)

/-- The file at the path, which has been asked for, has the archive of units that have been asked for
and have the fingerprint. -/
def Stores (x : Exporting σ) (path : String) (fingerprint : Bytes) : Prop :=
  (∃ units, (path, units) ∈ x.requests) ∧
    ∃ r ∈ x.requests, Snapshot.fingerprint r.2 = fingerprint ∧
      ∃ content, archive r.2 [] = .ok content ∧ Holds x.files path content

theorem Stores.imp {x y : Exporting σ} {path : String} {fingerprint : Bytes}
    (h : x.Stores path fingerprint) (hrequests : ∀ r ∈ x.requests, r ∈ y.requests)
    (hfiles : ∀ r ∈ x.requests, ∀ content, Holds x.files r.1 content → Holds y.files r.1 content) :
    y.Stores path fingerprint := by
  obtain ⟨⟨units, hpath⟩, r, hr, hsame, content, harchive, hcontent⟩ := h
  exact ⟨⟨units, hrequests _ hpath⟩, r, hrequests r hr, hsame, content, harchive,
    hfiles _ hpath content hcontent⟩

/-- The file that was written last holds what the worker takes it to hold, and the error is that of
the last job, if that has failed. -/
structure Stored (x : Exporting σ) : Prop where
  seen {job : ExportJob} {s : ExportState} (h : x.worker = .working job s) : s.last = x.state.last
  written {path : String} {fingerprint : Bytes} (h : x.written = some (path, fingerprint)) :
    x.Stores path fingerprint
  outcome {job : ExportJob} (h : x.handled.getLast? = some job) :
    match x.state.lastError with
    | none => x.state.last = some (job.path, fingerprint job.units)
    | some text => ∃ e, text = ExportState.failureText job e

theorem start_stored (files : σ) : (start files).Stored where
  seen h := by cases h
  written h := by cases h
  outcome h := by cases h

/-- What the worker has done is in the files, whether it wrote anything or not. -/
theorem Stored.perform {x : Exporting σ} (hx : x.Stored) {job : ExportJob} {seen : ExportState}
    (hworker : x.worker = .working job seen) (hjob : IsRequest x.requests job) {files : σ}
    {outcome : Except Error Bool} (hspec : Performed seen job x.files files outcome) :
    Stored { x with files := files, worker := .publishing job outcome } := by
  have hlast : x.written = x.state.last := written_eq_last (by rw [hworker]; rfl)
  refine ⟨nofun, fun h => ?_, hx.outcome⟩
  cases outcome with
  | error e =>
    exact (hx.written (hlast.trans h)).imp (fun _ hr => hr) fun _ _ content hp => hspec _ content hp
  | ok wrote =>
    cases h
    cases wrote with
    | true => exact ⟨⟨_, hjob.mem⟩, _, hjob.mem, rfl, hspec⟩
    | false =>
      -- Nothing was written, since the file that the last export wrote is the one of this job.
      obtain ⟨hrepeats, hsame⟩ := hspec
      obtain ⟨path, hseen, hpath⟩ := repeats_eq_true hrepeats
      rw [hx.seen hworker] at hseen
      obtain ⟨_, r, hr, hprint, content, harchive, hcontent⟩ := hx.written (hlast.trans hseen)
      exact ⟨⟨_, hjob.mem⟩, r, hr, hprint, content, harchive, hsame path content hpath hcontent⟩

theorem Stored.publish {x : Exporting σ} (hx : x.Stored) {job : ExportJob}
    {outcome : Except Error Bool} (hworker : x.worker = .publishing job outcome) :
    Stored { x with
      state := x.state.publish job outcome
      worker := .looking
      handled := x.handled ++ [job] } := by
  have hwritten : x.written = (x.state.publish job outcome).last := by
    rw [Exporting.written, hworker]
    cases outcome <;> rfl
  refine ⟨nofun, fun h => ?_, fun h => ?_⟩
  · exact (hx.written (hwritten.trans h)).imp (fun _ hr => hr) fun _ _ _ hp => hp
  · obtain rfl : job = _ := by simpa using h
    cases outcome with
    | ok wrote => rfl
    | error e => exact ⟨e, rfl⟩

theorem step_stored (hfiles : Reliable σ) {x y : Exporting σ} (h : Step x y) (hordered : x.Ordered)
    (hx : x.Stored) : y.Stored := by
  cases h with
  | request path units =>
    refine ⟨hx.seen, fun h => (hx.written h).imp ?_ ?_, hx.outcome⟩
    · exact fun r hr => List.mem_append_left _ hr
    · exact fun _ _ _ h => h
  | signal hbetween =>
    refine ⟨fun h => hx.seen (ExportWorker.started_eq_working h), fun h => hx.written ?_, hx.outcome⟩
    simpa only [Exporting.written, ExportWorker.written?_started] using h
  | receive hworker =>
    have hlast : x.written = x.state.last := written_eq_last (by rw [hworker]; rfl)
    exact ⟨nofun, fun h => hx.written (hlast.trans h), hx.outcome⟩
  | take hworker htake =>
    obtain ⟨_, rfl⟩ := take?_eq_some.mp htake
    have hlast : x.written = x.state.last := written_eq_last (by rw [hworker]; rfl)
    refine ⟨fun h => ?_, fun h => hx.written (hlast.trans h), hx.outcome⟩
    cases h
    rfl
  | rest hworker =>
    have hlast : x.written = x.state.last := written_eq_last (by rw [hworker]; rfl)
    exact ⟨nofun, fun h => hx.written (hlast.trans h), hx.outcome⟩
  | @perform job seen files outcome hworker hperform =>
    have hjob : job ∈ x.jobs := by simp [jobs, hworker, ExportWorker.job?]
    exact hx.perform hworker (hordered.genuine job hjob) (perform_spec hfiles hperform)
  | publish hworker => exact hx.publish hworker
  | elsewhere hkept =>
    exact ⟨hx.seen, fun h => (hx.written h).imp (fun _ hr => hr) hkept, hx.outcome⟩

/-! ### Runs -/

/-- What every step preserves. -/
structure Sound (x : Exporting σ) : Prop where
  ordered : x.Ordered
  awake : x.Awake
  stored : x.Stored

theorem step_sound (hfiles : Reliable σ) {x y : Exporting σ} (h : Step x y) (hx : x.Sound) :
    y.Sound :=
  ⟨step_ordered h hx.ordered, step_awake h hx.awake, step_stored hfiles h hx.ordered hx.stored⟩

theorem steps_sound (hfiles : Reliable σ) {x y : Exporting σ} (h : Steps x y) (hx : x.Sound) :
    y.Sound := by
  induction h with
  | refl => exact hx
  | tail _ hstep ih => exact step_sound hfiles hstep ih

theorem start_sound (files : σ) : (start files).Sound :=
  ⟨start_ordered files, start_awake files, start_stored files⟩

/-- When nobody is going to take a step for them, then all requests have been handled. -/
theorem Sound.at_rest {x : Exporting σ} (hx : x.Sound) (hbetween : x.between = 0)
    (hsignal : x.signalled = false) (hinside : x.worker.isInside = false) :
    x.state.completed = x.state.requested := by
  have hpending : x.state.pending = none := by
    have hawake := hx.awake.pending
    simpa [hbetween, hsignal, hinside] using hawake
  exact hx.ordered.completed_eq (ExportWorker.job?_of_outside hinside) hpending

/-- No two collections that have been asked for have the same fingerprint and different units. -/
def Distinguished (requests : List (String × List ClassUnit)) : Prop :=
  ∀ r ∈ requests, ∀ s ∈ requests, fingerprint r.2 = fingerprint s.2 → sorted r.2 = sorted s.2

theorem archive_congr {units others : List ClassUnit} (h : sorted units = sorted others)
    (resources : List ArchiveEntry) : archive units resources = archive others resources := by
  rw [archive, archive, entries, entries, h]

/-- Where nothing has failed, the file has the archive of the last job that has been handled. -/
theorem Sound.last_stored {x : Exporting σ} (hx : x.Sound) (hprints : Distinguished x.requests)
    {job : ExportJob} (hjob : x.handled.getLast? = some job) (hworker : x.worker.written? = none)
    (herror : x.state.lastError = none) :
    ∃ content, archive job.units [] = .ok content ∧ Holds x.files job.path content := by
  have hlast := hx.stored.outcome hjob
  rw [herror] at hlast
  obtain ⟨_, r, hr, hsame, content, harchive, hcontent⟩ :=
    hx.stored.written ((written_eq_last hworker).trans hlast)
  have hmem : job ∈ x.jobs := mem_jobs_of_handled (List.mem_of_getLast? hjob)
  have hsorted := hprints r hr _ (hx.ordered.genuine job hmem).mem hsame
  exact ⟨content, archive_congr hsorted [] ▸ harchive, hcontent⟩

/-- The exporter loses no request and ends with the newest one, whatever the order in which callers,
the worker and others take their steps. It never claims to have handled more than has been asked for,
and it handles requests in their order; what is pending is always going to be looked for, so that all
requests have been handled when nobody is going to take a step for them; and when they have, then the
last one was handled last, and its archive is in the file unless the error says that it failed. -/
theorem newest_handled (hfiles : Reliable σ) {files : σ} {x : Exporting σ}
    (h : Steps (start files) x) :
    (x.state.requested = x.requests.length ∧ x.state.completed ≤ x.state.requested ∧
      Increasing x.handled ∧ ∀ job ∈ x.handled, IsRequest x.requests job) ∧
    (x.state.pending.isSome → x.between = 0 → x.signalled = true ∨ x.worker.isInside = true) ∧
    (x.between = 0 → x.signalled = false → x.worker.isInside = false →
      x.state.completed = x.state.requested) ∧
    (x.state.completed = x.state.requested → 0 < x.state.requested →
      ∃ job, x.handled.getLast? = some job ∧ x.requests.getLast? = some (job.path, job.units) ∧
        match x.state.lastError with
        | none => Distinguished x.requests →
          ∃ content, archive job.units [] = .ok content ∧ Holds x.files job.path content
        | some text => ∃ e, text = ExportState.failureText job e) := by
  have hx : x.Sound := steps_sound hfiles h (start_sound files)
  have hincreasing : Increasing x.handled :=
    (List.pairwise_append.mp (List.pairwise_append.mp hx.ordered.increasing).1).1
  have hgenuine : ∀ job ∈ x.handled, IsRequest x.requests job := fun job hjob =>
    hx.ordered.genuine job (mem_jobs_of_handled hjob)
  refine ⟨⟨hx.ordered.requested, hx.ordered.completed_le, hincreasing, hgenuine⟩, hx.awake.pending,
    hx.at_rest, ?_⟩
  intro hcompleted hpositive
  obtain ⟨hworker, _⟩ := hx.ordered.settled hcompleted
  obtain ⟨job, hlast, hnewest⟩ := hx.ordered.last_handled hcompleted hpositive
  refine ⟨job, hlast, hnewest, ?_⟩
  cases herror : x.state.lastError with
  | none =>
    exact fun hprints => hx.last_stored hprints hlast (ExportWorker.written?_of_job? hworker) herror
  | some text =>
    have houtcome := hx.stored.outcome hlast
    rwa [herror] at houtcome

namespace Superseded

def tree : FileTree := .startingIn "work"

def units : List ClassUnit := [⟨"A", [1]⟩]

def job : ExportJob := ⟨2, "new.jar", units⟩

theorem units_archived : ∃ content, archive units [] = .ok content := by
  have hentries : entries units [] = [⟨"A.class", [1]⟩] := by
    simp only [entries, sorted, units, List.mergeSort_singleton]
    decide
  have hduplicate : Zip.hasDuplicate ["A.class"] = false := by
    simp [Zip.hasDuplicate, Std.HashSet.size_insert]
  rw [archive, hentries, Zip.encode, List.map_singleton, hduplicate]
  exact ⟨_, (if_neg (by simp)).trans ((if_neg (by decide)).trans (if_neg (by decide)))⟩

theorem resolve_new : tree.resolve "new.jar" = .ok (.vacant ["work", "new.jar"]) := by
  have hparts : Path.parts "new.jar" = ["new.jar"] := by decide
  have horigin : tree.origin "new.jar" = ["work"] := by
    simp [FileTree.origin, Path.isAbsolute, tree, FileTree.startingIn, FileTree.insertDirectory]
  have henter : tree.enter ["work"] "new.jar" = .ok (.vacant ["work", "new.jar"]) := by
    refine FileTree.enter_eq_ok.mpr (.inr ⟨by decide, by decide, ?_⟩)
    refine FileTree.look_eq_vacant.mpr ⟨rfl, ?_, ?_⟩
    · simp [FileTree.IsListed, tree, FileTree.startingIn, FileTree.insertDirectory, FileTree.key]
    · simp [tree, FileTree.startingIn, FileTree.insertDirectory]
  refine FileTree.resolve_eq_ok.mpr ⟨by decide, ?_, by simp⟩
  rw [hparts, horigin, FileTree.follow, henter]
  rfl

theorem perform_new {s : ExportState} (hs : s.last = none) :
    ∃ files, (Exporter.perform s job : StateM FileTree _).run tree = (.ok true, files) := by
  obtain ⟨content, harchive⟩ := units_archived
  have hrepeats : s.repeats job = false := by simp [ExportState.repeats, hs]
  have hdirectory : directoryOf "new.jar" = "." := by
    have hparts : Path.parts "new.jar" = ["new.jar"] := by decide
    simp [directoryOf, Path.parent, hparts, Path.isAbsolute, Path.startsHere]
  have hmake : (makeDirectory "." : StateM FileTree _).run tree = (.ok (), tree) := rfl
  have hreplace : (replace "new.jar" content : StateM FileTree _).run tree =
      (.ok (), tree.insertFile ["work", "new.jar"] content) := by
    have hends : Path.saysDirectory "new.jar" = false := by decide
    change tree.write "new.jar" content = _
    simp [FileTree.write, resolve_new, hends]
  have hwrite : (Snapshot.write job.path job.units : StateM FileTree _).run tree =
      (.ok (), tree.insertFile ["work", "new.jar"] content) := by
    rw [Snapshot.write, show job.path = "new.jar" from rfl, show job.units = units from rfl,
      hdirectory, bind_run hmake]
    simp only [harchive]
    rw [bind_run hreplace]
    rfl
  refine ⟨tree.insertFile ["work", "new.jar"] content, ?_⟩
  have hlook : (if s.repeats job then present job.path else pure false : StateM FileTree Bool).run
      tree = (false, tree) := by
    rw [hrepeats]
    rfl
  rw [perform_run hlook, hwrite]
  rfl

/-- Two callers note their requests before either of them sends a signal, and only one signal fits
into the channel. The worker handles the second request. -/
theorem newest_written : ∃ x : Exporting FileTree, Steps (start tree) x ∧
    x.requests = [("old.jar", units), ("new.jar", units)] ∧ x.handled = [job] ∧
    ∃ content, archive units [] = .ok content ∧ Holds x.files "new.jar" content := by
  let noted := (ExportState.initial.request "old.jar" units).request "new.jar" units
  let seen : ExportState := { noted with pending := none }
  obtain ⟨files, hperform⟩ := perform_new (s := seen) rfl
  let x : Exporting FileTree := ⟨seen.publish job (.ok true), 0, false, .looking, files,
    [("old.jar", units), ("new.jar", units)], [job]⟩
  have hsteps : Steps (start tree) x :=
    ((((((((Relation.ReflTransGen.refl
      ).tail (.request _ "old.jar" units)
      ).tail (.request _ "new.jar" units)
      ).tail (.signal _ rfl)
      ).tail (.signal _ rfl)
      ).tail (.receive _ rfl rfl)
      ).tail (.take _ rfl rfl)
      ).tail (.perform _ rfl hperform)
      ).tail (.publish _ rfl)
  have hprints : Distinguished x.requests := by
    have hunits : ∀ r ∈ x.requests, r.2 = units := by simp [x]
    exact fun r hr s hs _ => by rw [hunits r hr, hunits s hs]
  obtain ⟨_, _, _, hlast⟩ := newest_handled FileTree.reliable hsteps
  obtain ⟨_, hjob, _, hstored⟩ := hlast rfl (Nat.succ_pos 1)
  cases hjob
  exact ⟨x, hsteps, rfl, rfl, hstored hprints⟩

end Superseded

/-! ### All requests can be handled -/

/-- Handling the pending request at once is what the worker does in several steps. -/
theorem settle_steps {x : Exporting σ} (hworker : x.worker = .looking) {e e' : Exporter}
    (hstate : e.state = x.state) {files : σ}
    (h : (e.settle : StateM σ _).run x.files = (e', files)) :
    e'.state.pending = none ∧ Steps x { x with
      state := e'.state
      files := files
      handled := x.handled ++ x.state.pending.toList } := by
  unfold Exporter.settle at h
  cases htake : x.state.take? with
  | none =>
    have hpending : x.state.pending = none := Option.map_eq_none_iff.mp htake
    rw [hstate, htake] at h
    cases h
    rw [hstate, hpending, Option.toList_none, List.append_nil]
    exact ⟨rfl, .refl⟩
  | some taken =>
    obtain ⟨job, s⟩ := taken
    obtain ⟨hpending, hs⟩ := take?_eq_some.mp htake
    rcases hperform : (Exporter.perform s job : StateM σ _).run x.files with ⟨outcome, files'⟩
    rw [hstate, htake] at h
    dsimp only at h
    rw [bind_run hperform] at h
    cases h
    have hsteps := ((Relation.ReflTransGen.single (Step.take x hworker htake)).tail
      (Step.perform _ rfl hperform)).tail (Step.publish _ rfl)
    refine ⟨?_, by simpa [hpending, ← hworker] using hsteps⟩
    rw [hs]
    cases outcome <;> rfl

theorem signals_sent (x : Exporting σ) :
    ∃ y, Steps x y ∧ y.requests = x.requests ∧ y.between = 0 := by
  generalize hn : x.between = n
  induction n generalizing x with
  | zero => exact ⟨x, .refl, rfl, hn⟩
  | succ n ih =>
    have hstep : Step x _ := .signal x hn
    obtain ⟨y, hsteps, hrequests, hy⟩ := ih _ (rfl : Exporting.between { x with
      between := n, signalled := true, worker := x.worker.started } = n)
    exact ⟨y, .head hstep hsteps, hrequests, hy⟩

theorem looking_settled (hfiles : Reliable σ) {x : Exporting σ} (hx : x.Sound)
    (hworker : x.worker = .looking) :
    ∃ y, Steps x y ∧ y.requests = x.requests ∧ y.state.completed = y.state.requested := by
  rcases hsettle : ((⟨"", x.state⟩ : Exporter).settle : StateM σ _).run x.files with ⟨e, files⟩
  obtain ⟨hpending, hsteps⟩ := settle_steps hworker rfl hsettle
  refine ⟨_, hsteps, rfl, (steps_sound hfiles hsteps hx).ordered.completed_eq ?_ hpending⟩
  rw [hworker]
  rfl

/-- Wherever a run has come, all requests can be handled without another one. -/
theorem all_handled (hfiles : Reliable σ) {files : σ} {x : Exporting σ}
    (h : Steps (start files) x) :
    ∃ y, Steps x y ∧ y.requests = x.requests ∧ y.state.completed = y.state.requested := by
  obtain ⟨w, hw, hrequests, hbetween⟩ := signals_sent x
  have hsound : w.Sound := steps_sound hfiles (h.trans hw) (start_sound files)
  -- From here on the worker can do the rest alone, by its own steps to where it looks for requests.
  have hlook {z : Exporting σ} (hz : Steps w z) (hsame : z.requests = w.requests)
      (hworker : z.worker = .looking) :
      ∃ y, Steps x y ∧ y.requests = x.requests ∧ y.state.completed = y.state.requested := by
    obtain ⟨y, hy, hlast, hdone⟩ := looking_settled hfiles (steps_sound hfiles hz hsound) hworker
    exact ⟨y, (hw.trans hz).trans hy, hlast.trans (hsame.trans hrequests), hdone⟩
  have hrest (hsignal : w.signalled = false) (hinside : w.worker.isInside = false) :
      ∃ y, Steps x y ∧ y.requests = x.requests ∧ y.state.completed = y.state.requested :=
    ⟨w, hw, hrequests, hsound.at_rest hbetween hsignal hinside⟩
  cases hworker : w.worker with
  | absent =>
    have hsignal : w.signalled = false := by
      by_contra hsignal
      exact hsound.awake.started (by simpa using hsignal) hworker
    exact hrest hsignal (by rw [hworker]; rfl)
  | waiting =>
    cases hsignal : w.signalled with
    | false => exact hrest hsignal (by rw [hworker]; rfl)
    | true => exact hlook (.single (.receive w hworker hsignal)) rfl rfl
  | looking => exact hlook .refl rfl hworker
  | working job seen =>
    rcases hperform : (Exporter.perform seen job : StateM σ _).run w.files with ⟨outcome, files'⟩
    have hstep : Step w _ := .perform w hworker hperform
    exact hlook ((Relation.ReflTransGen.single hstep).tail (.publish _ rfl)) rfl rfl
  | publishing job outcome => exact hlook (.single (.publish w hworker)) rfl rfl

end

end Exporting

end ClassAtlas
