import Mathlib.Logic.Relation
import RuleCatalogue.Proofs.Fallible
import RuleCatalogue.Report

/-!
# Reading files beside one another

Several workers read files at the same time, and what comes of it is told by the order in which the
files are given and not by the order in which they are read.  The reason is that the results are
asked for in the order of the files: a result that is there early waits, one that is late is waited
for, and the first breakdown among them is met first, however many lie behind it.

## Main definitions

* `Pool` is a pool of workers with its jobs, and `Pool.Step` what can happen next in it.
* `Pool.inTurn` is what doing the jobs one after another gives.
* `Pool.Consistent` is what holds of a pool all along.

## Main statements

* `Pool.Consistent.step`, `Pool.consistent_of_reached`: what one step keeps, and a whole run.
* `Pool.gathered_eq_inTurn`: a run that is over has given what doing the jobs in turn gives.
* `Pool.wellFounded_step`, `Pool.exists_step_of_not_isOver`: every run comes to its end.
* `Pool.report_of_isOver`: so the report on files is that of reading them in turn.

## Design notes

Which of the waiting jobs is started next is left open, and so is which of the running ones is done
next; a pool that takes its jobs in their order makes some of these runs.
-/

namespace RuleCatalogue

/-- **How far a job is.** -/
inductive Stage (ε α : Type)
  | waiting
  | running
  | done (result : Except ε α)

namespace Stage

variable {ε α : Type}

/-- Whether a job has not been started. -/
def isWaiting : Stage ε α → Bool
  | waiting => true
  | _ => false

/-- Whether a worker is at a job. -/
def isRunning : Stage ε α → Bool
  | running => true
  | _ => false

end Stage

/-- **A pool of workers**: how far each job is, and what the caller has been given, which is the
results of the first jobs in their order, or the error of the first job that had one. -/
structure Pool (ε α : Type) where
  stages : List (Stage ε α)
  gathered : Except ε (List α) := .ok []

namespace Pool

variable {ε α : Type} {workers : Nat} {results : List (Except ε α)} {pool next : Pool ε α}

/-- The number of jobs that have not been started. -/
def waitingCount (pool : Pool ε α) : Nat :=
  pool.stages.countP Stage.isWaiting

/-- The number of jobs that are being done. -/
def runningCount (pool : Pool ε α) : Nat :=
  pool.stages.countP Stage.isRunning

/-- A pool whose jobs are all waiting. -/
def start (jobs : Nat) : Pool ε α where
  stages := List.replicate jobs .waiting

/-- A pool with one job at another stage. -/
def moveTo (pool : Pool ε α) (job : Nat) (stage : Stage ε α) : Pool ε α :=
  { pool with stages := pool.stages.set job stage }

/-- A pool whose caller has been given one more result. -/
def give (pool : Pool ε α) (given : List α) (result : Except ε α) : Pool ε α :=
  { pool with gathered := result.map fun a => given ++ [a] }

/-- **What can happen next** in a pool with so many workers, where the jobs have these results: a
free worker starts a waiting job, a running job is done, or the caller is given the next result. -/
inductive Step (workers : Nat) (results : List (Except ε α)) : Pool ε α → Pool ε α → Prop
  | start {pool : Pool ε α} {job : Nat} (hwaiting : pool.stages[job]? = some .waiting)
      (hfree : pool.runningCount < workers) : Step workers results pool (pool.moveTo job .running)
  | finish {pool : Pool ε α} {job : Nat} {result : Except ε α}
      (hrunning : pool.stages[job]? = some .running) (hresult : results[job]? = some result) :
      Step workers results pool (pool.moveTo job (.done result))
  | gather {pool : Pool ε α} {given : List α} {result : Except ε α}
      (hgiven : pool.gathered = .ok given)
      (hdone : pool.stages[given.length]? = some (.done result)) :
      Step workers results pool (pool.give given result)

/-- **A run is over** when all jobs are done and the caller has been given all results, or an
error. -/
structure IsOver (pool : Pool ε α) : Prop where
  done : ∀ stage ∈ pool.stages, ∃ result, stage = Stage.done result
  given : ∀ given, pool.gathered = .ok given → given.length = pool.stages.length

/-- **A pool is reached** by a run that begins with all jobs waiting. -/
def Reached (workers : Nat) (results : List (Except ε α)) (pool : Pool ε α) : Prop :=
  Relation.ReflTransGen (Step workers results) (start results.length) pool

/-! ## Jobs in turn -/

/-- **What doing jobs one after another gives**: their results, or the first error, behind which no
job is done. -/
def inTurn : List (Except ε α) → Except ε (List α)
  | [] => .ok []
  | .error e :: _ => .error e
  | .ok a :: rest => (inTurn rest).map (a :: ·)

theorem inTurn_map_ok_append (given : List α) (rest : List (Except ε α)) :
    inTurn (given.map .ok ++ rest) = (inTurn rest).map (given ++ ·) := by
  induction given with
  | nil =>
    rw [List.map_nil, List.nil_append]
    cases inTurn rest <;> rfl
  | cons a given ih =>
    rw [List.map_cons, List.cons_append, inTurn, ih]
    cases inTurn rest <;> rfl

theorem inTurn_map_ok (given : List α) :
    inTurn (given.map (.ok : α → Except ε α)) = .ok given := by
  have h := inTurn_map_ok_append given ([] : List (Except ε α))
  rwa [List.append_nil, inTurn, Except.map, List.append_nil] at h

theorem inTurn_of_error (given : List α) (e : ε) (rest : List (Except ε α)) :
    inTurn (given.map .ok ++ .error e :: rest) = .error e := by
  rw [inTurn_map_ok_append, inTurn, Except.map]

/-! ## What holds all along -/

/-- **What a caller has been given** begins the results of the jobs in their order. -/
inductive Gathers (results : List (Except ε α)) : Except ε (List α) → Prop
  | given {given : List α} (h : given.map (.ok : α → Except ε α) <+: results) :
      Gathers results (.ok given)
  | broken {given : List α} {e : ε}
      (h : given.map (.ok : α → Except ε α) ++ [.error e] <+: results) :
      Gathers results (.error e)

/-- **A pool is consistent** with the results of its jobs: a job that is done has its own result,
the caller has been given the first of them, and no more jobs are running than there are workers. -/
structure Consistent (workers : Nat) (results : List (Except ε α)) (pool : Pool ε α) : Prop where
  length : pool.stages.length = results.length
  done : ∀ (job : Nat) (result : Except ε α),
    pool.stages[job]? = some (.done result) → results[job]? = some result
  gathers : Gathers results pool.gathered
  capacity : pool.runningCount ≤ workers

theorem consistent_start (workers : Nat) (results : List (Except ε α)) :
    Consistent workers results (start results.length) where
  length := List.length_replicate
  done job result h := by
    have hwaiting := List.eq_of_mem_replicate (List.mem_of_getElem? h)
    cases hwaiting
  gathers := .given List.nil_prefix
  capacity := by
    have hnone : (start results.length : Pool ε α).runningCount = 0 := by
      rw [runningCount, List.countP_eq_zero]
      intro stage hstage
      rw [List.eq_of_mem_replicate hstage]
      exact Bool.false_ne_true
    rw [hnone]
    exact Nat.zero_le _

/-- What is behind the first results is the next of them. -/
theorem append_singleton_prefix {first : List (Except ε α)} {result : Except ε α}
    (h : first <+: results) (hnext : results[first.length]? = some result) :
    first ++ [result] <+: results := by
  obtain ⟨rest, rfl⟩ := h
  rw [List.getElem?_append_right (Nat.le_refl _), Nat.sub_self] at hnext
  cases rest with
  | nil => cases hnext
  | cons next rest =>
    cases hnext
    exact ⟨rest, by rw [List.append_assoc, List.singleton_append]⟩

/-- A job that is done elsewhere was done before. -/
theorem done_of_moveTo {job other : Nat} {stage : Stage ε α} {result : Except ε α}
    (h : (pool.moveTo job stage).stages[other]? = some (.done result)) :
    other = job ∧ stage = .done result ∨ pool.stages[other]? = some (.done result) := by
  rw [moveTo, List.getElem?_set] at h
  split at h
  · next heq =>
    split at h
    · exact Or.inl ⟨heq.symm, Option.some.inj h⟩
    · cases h
  · exact Or.inr h

/-- Moving one job changes the number of jobs of a kind by that job alone. -/
theorem countP_moveTo {job : Nat} {stage before : Stage ε α} (p : Stage ε α → Bool)
    (h : pool.stages[job]? = some before) :
    (pool.moveTo job stage).stages.countP p + (if p before then 1 else 0)
      = pool.stages.countP p + (if p stage then 1 else 0) := by
  obtain ⟨hjob, hbefore⟩ := List.getElem?_eq_some_iff.mp h
  have hcount : (if p before then 1 else 0) ≤ pool.stages.countP p := by
    split
    · next hp => exact List.countP_pos_iff.mpr ⟨before, List.mem_of_getElem? h, hp⟩
    · exact Nat.zero_le _
  rw [moveTo, List.countP_set hjob, hbefore]
  omega

section Counts

variable {job : Nat}

theorem waitingCount_start (h : pool.stages[job]? = some .waiting) :
    (pool.moveTo job .running).waitingCount + 1 = pool.waitingCount :=
  countP_moveTo Stage.isWaiting h

theorem runningCount_start (h : pool.stages[job]? = some .waiting) :
    (pool.moveTo job .running).runningCount = pool.runningCount + 1 :=
  countP_moveTo Stage.isRunning h

theorem waitingCount_finish (result : Except ε α) (h : pool.stages[job]? = some .running) :
    (pool.moveTo job (.done result)).waitingCount = pool.waitingCount :=
  countP_moveTo Stage.isWaiting h

theorem runningCount_finish (result : Except ε α) (h : pool.stages[job]? = some .running) :
    (pool.moveTo job (.done result)).runningCount + 1 = pool.runningCount :=
  countP_moveTo Stage.isRunning h

end Counts

/-- **What one step keeps**: a job that is done holds its own result, what has been gathered is what
the first jobs give in turn, and no more jobs are in hand than there are workers. -/
theorem Consistent.step (h : Consistent workers results pool)
    (hstep : Step workers results pool next) : Consistent workers results next := by
  cases hstep with
  | @start job hwaiting hfree =>
    refine ⟨List.length_set.trans h.length, fun other result hother => ?_, h.gathers, ?_⟩
    · rcases done_of_moveTo hother with ⟨-, hstage⟩ | hbefore
      · cases hstage
      · exact h.done other result hbefore
    · rw [runningCount_start hwaiting]
      exact hfree
  | @finish job result hrunning hresult =>
    refine ⟨List.length_set.trans h.length, fun other found hother => ?_, h.gathers, ?_⟩
    · rcases done_of_moveTo hother with ⟨rfl, hstage⟩ | hbefore
      · cases hstage
        exact hresult
      · exact h.done other found hbefore
    · have hcount := runningCount_finish result hrunning
      have hcapacity := h.capacity
      omega
  | @gather given result hgiven hdone =>
    refine ⟨h.length, h.done, ?_, h.capacity⟩
    have hresult := h.done _ _ hdone
    have hgathers := h.gathers
    rw [hgiven] at hgathers
    cases hgathers with
    | given hprefix =>
      rw [← List.length_map (f := (.ok : α → Except ε α))] at hresult
      have hnext := append_singleton_prefix hprefix hresult
      cases result with
      | ok a => exact .given (by rwa [List.map_append])
      | error e => exact .broken hnext

/-- **What a whole run keeps**, by `Consistent.step` along the steps from the start. -/
theorem consistent_of_reached (h : Reached workers results pool) :
    Consistent workers results pool := by
  induction h with
  | refl => exact consistent_start workers results
  | tail _ hstep ih => exact ih.step hstep

/-- **A run that is over has given what doing the jobs in turn gives**, values and first error
alike, whatever the order in which workers took and finished the jobs. -/
theorem gathered_eq_inTurn (h : Reached workers results pool) (hover : pool.IsOver) :
    pool.gathered = inTurn results := by
  have hconsistent := consistent_of_reached h
  have hgathers := hconsistent.gathers
  cases hgathered : pool.gathered with
  | ok given =>
    rw [hgathered] at hgathers
    cases hgathers with
    | given hprefix =>
      have hlength : (given.map (.ok : α → Except ε α)).length = results.length := by
        rw [List.length_map, hover.given given hgathered, hconsistent.length]
      rw [← hprefix.eq_of_length hlength, inTurn_map_ok]
  | error e =>
    rw [hgathered] at hgathers
    cases hgathers with
    | @broken given _ hprefix =>
      obtain ⟨rest, hrest⟩ := hprefix
      rw [← hrest, List.append_assoc, List.singleton_append, inTurn_of_error]

/-! ## The end of a run -/

/-- The number of results that the caller still waits for. -/
def awaitedCount (pool : Pool ε α) : Nat :=
  match pool.gathered with
  | .ok given => pool.stages.length - given.length
  | .error _ => 0

theorem awaitedCount_moveTo {job : Nat} {stage : Stage ε α} :
    (pool.moveTo job stage).awaitedCount = pool.awaitedCount := by
  rw [awaitedCount, moveTo, List.length_set]
  rfl

/-- A caller who is given a result waits for fewer. -/
theorem awaitedCount_give {given : List α} (result : Except ε α)
    (hgiven : pool.gathered = .ok given) (hmore : given.length < pool.stages.length) :
    (pool.give given result).awaitedCount < pool.awaitedCount := by
  have hbefore : pool.awaitedCount = pool.stages.length - given.length := by
    rw [awaitedCount, hgiven]
  rw [hbefore]
  cases result with
  | ok a =>
    show pool.stages.length - (given ++ [a]).length < _
    rw [List.length_append, List.length_singleton]
    omega
  | error e => exact Nat.sub_pos_of_lt hmore

/-- What is left to be done: each job is to be started and finished, and the results are to be
given. -/
def work (pool : Pool ε α) : Nat :=
  2 * pool.waitingCount + pool.runningCount + pool.awaitedCount

/-- **A step leaves less to do.** A job counts two in `work` while it waits and one while it is in
hand, and a result that has not been given counts one, so each of the three kinds of steps brings it
down. -/
theorem Step.work_lt (h : Step workers results pool next) : next.work < pool.work := by
  cases h with
  | @start job hwaiting hfree =>
    have hwaits := waitingCount_start hwaiting
    have hruns := runningCount_start hwaiting
    rw [work, work, awaitedCount_moveTo]
    omega
  | @finish job result hrunning hresult =>
    have hwaits := waitingCount_finish result hrunning
    have hruns := runningCount_finish result hrunning
    rw [work, work, awaitedCount_moveTo]
    omega
  | @gather given result hgiven hdone =>
    have hless := awaitedCount_give result hgiven
      (List.getElem?_eq_some_iff.mp hdone).1
    exact Nat.add_lt_add_left hless _

/-- **No run goes on for ever**, since `Step.work_lt` measures it by a number. -/
theorem wellFounded_step (workers : Nat) (results : List (Except ε α)) :
    WellFounded fun next pool : Pool ε α => Step workers results pool next :=
  Subrelation.wf Step.work_lt (measure work).wf

/-- A pool has a running job, or nobody works in it and a job is waiting, or all jobs are done. -/
theorem running_or_waiting_or_done (pool : Pool ε α) :
    (∃ job : Nat, pool.stages[job]? = some .running)
      ∨ (pool.runningCount = 0 ∧ ∃ job : Nat, pool.stages[job]? = some .waiting)
      ∨ ∀ stage ∈ pool.stages, ∃ result, stage = Stage.done result := by
  by_cases hrunning : ∃ job : Nat, pool.stages[job]? = some .running
  · exact Or.inl hrunning
  · have hidle : pool.runningCount = 0 := by
      rw [runningCount, List.countP_eq_zero]
      intro stage hstage hrun
      obtain ⟨job, hjob⟩ := List.mem_iff_getElem?.mp hstage
      cases stage with
      | running => exact hrunning ⟨job, hjob⟩
      | waiting => cases hrun
      | done result => cases hrun
    by_cases hwaiting : ∃ job : Nat, pool.stages[job]? = some .waiting
    · exact Or.inr (Or.inl ⟨hidle, hwaiting⟩)
    · refine Or.inr (Or.inr fun stage hstage => ?_)
      obtain ⟨job, hjob⟩ := List.mem_iff_getElem?.mp hstage
      cases stage with
      | running => exact absurd ⟨job, hjob⟩ hrunning
      | waiting => exact absurd ⟨job, hjob⟩ hwaiting
      | done result => exact ⟨result, rfl⟩

/-- A caller has been given no more results than there are jobs. -/
theorem Consistent.length_given_le (h : Consistent workers results pool) {given : List α}
    (hgiven : pool.gathered = .ok given) : given.length ≤ pool.stages.length := by
  have hgathers := h.gathers
  rw [hgiven] at hgathers
  cases hgathers with
  | given hprefix =>
    have hle := hprefix.length_le
    rwa [List.length_map, ← h.length] at hle

/-- Where all jobs are done and the run is not over, the caller is still to be given a result. -/
theorem exists_gather_of_done (h : Consistent workers results pool)
    (hdone : ∀ stage ∈ pool.stages, ∃ result, stage = Stage.done result) (hover : ¬ pool.IsOver) :
    ∃ next, Step workers results pool next := by
  cases hgathered : pool.gathered with
  | error e =>
    refine absurd ⟨hdone, fun given hgiven => ?_⟩ hover
    rw [hgathered] at hgiven
    cases hgiven
  | ok given =>
    have hne : given.length ≠ pool.stages.length := by
      intro hlength
      refine hover ⟨hdone, fun others hothers => ?_⟩
      rw [hgathered] at hothers
      cases hothers
      exact hlength
    have hlt : given.length < pool.stages.length :=
      Nat.lt_of_le_of_ne (h.length_given_le hgathered) hne
    obtain ⟨result, hresult⟩ := hdone _ (List.getElem_mem hlt)
    exact ⟨_, .gather hgathered (by rw [List.getElem?_eq_getElem hlt, hresult])⟩

/-- **A run that is not over goes on**, if there is a worker at all: a job in hand can be finished;
if none is in hand, one that waits can be taken; and if all are done, the next result can be given.
-/
theorem exists_step_of_not_isOver (hworkers : 1 ≤ workers) (h : Consistent workers results pool)
    (hover : ¬ pool.IsOver) : ∃ next, Step workers results pool next := by
  rcases running_or_waiting_or_done pool with ⟨job, hjob⟩ | ⟨hidle, job, hjob⟩ | hdone
  · have hlength := (List.getElem?_eq_some_iff.mp hjob).1
    rw [h.length] at hlength
    exact ⟨_, .finish hjob (List.getElem?_eq_getElem hlength)⟩
  · have hfree : pool.runningCount < workers := by
      rw [hidle]
      exact hworkers
    exact ⟨_, .start hjob hfree⟩
  · exact exists_gather_of_done h hdone hover

/-! ## Files -/

/-- **The report of a pool that reads files**, on what the caller has been given. -/
def report (paths : List Path) (pool : Pool Breakdown Outcome) : Except Breakdown Report :=
  pool.gathered.map fun outcomes => (Report.ofOutcomes (paths.zip outcomes)).1

theorem outcomes_eq_inTurn (readings : List (Path × Reading)) :
    Batch.outcomes readings
      = (inTurn (readings.map fun file => file.2.result)).map
        ((readings.map Prod.fst).zip ·) := by
  induction readings with
  | nil => rfl
  | cons file rest ih =>
    obtain ⟨path, reading⟩ := file
    simp only [Batch.outcomes, List.map_cons]
    cases reading.result with
    | error breakdown => rfl
    | ok outcome =>
      simp only [inTurn, ih]
      cases inTurn (rest.map fun file => file.2.result) <;> rfl

/-- **The first breakdown in the order of the files** is what becomes of reading them in turn; files
behind it may have broken down earlier in time. -/
theorem outcomes_eq_error_iff {readings : List (Path × Reading)} {breakdown : Breakdown} :
    Batch.outcomes readings = .error breakdown
      ↔ ∃ first file later, readings = first ++ file :: later
        ∧ (∀ earlier ∈ first, ∃ outcome, earlier.2.result = .ok outcome)
        ∧ file.2.result = .error breakdown := by
  constructor
  · intro h
    induction readings with
    | nil => cases h
    | cons file rest ih =>
      rw [Batch.outcomes] at h
      cases hresult : file.2.result with
      | error other =>
        simp only [hresult, Except.error.injEq] at h
        exact ⟨[], file, rest, rfl, fun _ hnone => absurd hnone List.not_mem_nil, h ▸ hresult⟩
      | ok outcome =>
        simp only [hresult, Fallible.map_eq_error_iff] at h
        obtain ⟨first, broken, later, rfl, hfirst, hbroken⟩ := ih h
        refine ⟨file :: first, broken, later, rfl, fun earlier hearlier => ?_, hbroken⟩
        rcases List.mem_cons.mp hearlier with rfl | hmem
        · exact ⟨outcome, hresult⟩
        · exact hfirst earlier hmem
  · rintro ⟨first, file, later, rfl, hfirst, hresult⟩
    induction first with
    | nil => simp only [List.nil_append, Batch.outcomes, hresult]
    | cons earlier first ih =>
      obtain ⟨outcome, houtcome⟩ := hfirst earlier List.mem_cons_self
      have hrest := ih fun other hother => hfirst other (List.mem_cons_of_mem _ hother)
      simp only [List.cons_append, Batch.outcomes, houtcome, hrest]
      rfl

theorem result_ofReadings (together : Bool) (readings : List (Path × Reading)) :
    (Batch.ofReadings together readings).result
      = (Batch.outcomes readings).map fun outcomes => (Report.ofOutcomes outcomes).1 := by
  unfold Batch.ofReadings
  dsimp only
  cases Batch.outcomes readings <;> rfl

/-- **Several workers give the report that one gives**, in whatever order they come to the files and
are done with them: no run goes on for ever or is stuck, no more files are read at once than there
are workers, and a run that is over has given the report of reading the files in turn, or the first
breakdown in their order. -/
theorem report_of_isOver {workers : Nat} (hworkers : 1 ≤ workers)
    (readings : List (Path × Reading)) :
    (WellFounded fun next pool =>
        Step workers (readings.map fun file => file.2.result) pool next)
      ∧ (∀ pool, Reached workers (readings.map fun file => file.2.result) pool →
        pool.runningCount ≤ workers
          ∧ (pool.IsOver ∨ ∃ next,
              Step workers (readings.map fun file => file.2.result) pool next)
          ∧ (pool.IsOver → ∀ together, pool.report (readings.map Prod.fst)
              = (Batch.ofReadings together readings).result))
      ∧ ∀ together breakdown,
        (Batch.ofReadings together readings).result = .error breakdown
          ↔ ∃ first file later, readings = first ++ file :: later
            ∧ (∀ earlier ∈ first, ∃ outcome, earlier.2.result = .ok outcome)
            ∧ file.2.result = .error breakdown := by
  refine ⟨wellFounded_step workers _, fun pool h => ⟨(consistent_of_reached h).capacity, ?_, ?_⟩,
    fun together breakdown => ?_⟩
  · by_cases hover : pool.IsOver
    · exact Or.inl hover
    · exact Or.inr (exists_step_of_not_isOver hworkers (consistent_of_reached h) hover)
  · intro hover together
    rw [report, gathered_eq_inTurn h hover, result_ofReadings, outcomes_eq_inTurn]
    cases inTurn (readings.map fun file => file.2.result) <;> rfl
  · rw [result_ofReadings, Fallible.map_eq_error_iff, outcomes_eq_error_iff]

/-- The breakdown of a file whose byte order mark is missing. -/
def unmarked : Breakdown :=
  .unplaced "UTF-16 stream does not start with BOM"

/-- A file without rules, and two that break off the reading, each for a reason of its own. -/
def readOnceBrokenTwice : List (Path × Reading) :=
  [(⟨.here, ["a.apt"]⟩, ⟨[], .ok (.ok ∅)⟩),
    (⟨.here, ["b.apt"]⟩, ⟨[], .error unmarked⟩),
    (⟨.here, ["c.apt"]⟩, ⟨[], .error (.encodingName .nullInName)⟩)]

/-- The last of three files is done first and breaks off the reading, but so does the file before
it, which comes first in the order. -/
theorem report_of_isOver_overtaken :
    ∃ pool : Pool Breakdown Outcome, 1 ≤ 2
      ∧ Reached 2 (readOnceBrokenTwice.map fun file => file.2.result) pool
      ∧ pool.IsOver
      ∧ pool.report (readOnceBrokenTwice.map Prod.fst)
          = (Batch.ofReadings true readOnceBrokenTwice).result
      ∧ (Batch.ofReadings true readOnceBrokenTwice).result = .error unmarked := by
  obtain ⟨-, hruns, hfirst⟩ := report_of_isOver (Nat.le_succ 1) readOnceBrokenTwice
  let results := readOnceBrokenTwice.map fun file => file.2.result
  let overtaken : Pool Breakdown Outcome :=
    (((start 3).moveTo 0 .running).moveTo 2 .running).moveTo 2
      (.done (.error (.encodingName .nullInName)))
  let late : Pool Breakdown Outcome :=
    (overtaken.moveTo 1 .running).moveTo 1 (.done (.error unmarked))
  let done : Pool Breakdown Outcome :=
    late.moveTo 0 (.done (.ok (.ok ∅)))
  let broken : Pool Breakdown Outcome :=
    (done.give [] (.ok (.ok ∅))).give [.ok ∅] (.error unmarked)
  have hovertaken : Reached 2 results overtaken :=
    ((Relation.ReflTransGen.refl.tail (.start rfl (by decide))).tail
      (.start rfl (by decide))).tail (.finish rfl rfl)
  have hlate : Reached 2 results late :=
    (hovertaken.tail (.start rfl (by decide))).tail (.finish rfl rfl)
  have hdone : Reached 2 results done := hlate.tail (.finish rfl rfl)
  have hbroken : Reached 2 results broken :=
    (hdone.tail (.gather rfl rfl)).tail (.gather rfl rfl)
  have hover : broken.IsOver := by
    refine ⟨fun stage hstage => ?_, fun given hgiven => ?_⟩
    · obtain ⟨result, -, rfl⟩ := List.mem_map.mp (show stage ∈ results.map .done from hstage)
      exact ⟨result, rfl⟩
    · cases hgiven
  refine ⟨broken, Nat.le_succ 1, hbroken, hover, (hruns broken hbroken).2.2 hover true, ?_⟩
  exact (hfirst true _).mpr ⟨_, _, _, (List.singleton_append).symm, by simp, rfl⟩

end Pool

end RuleCatalogue
