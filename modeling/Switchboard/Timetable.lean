import Switchboard.Failure

/-! Timetables of periodic tasks. A task is created, started and stopped by its number, and may be
dropped. The table of started tasks is kept beside the tasks, so that all of them can be stopped or
restarted in the order of their creation. Time is a number of milliseconds, and a job takes none. -/
namespace Switchboard

namespace Timetable

/-- From where the period before the next run counts: from the time of the last run, or from its
end. -/
inductive Pace where
  | fixedRate
  | fixedDelay
deriving DecidableEq

def Pace.label : Pace → String
  | fixedRate => "fixed_rate"
  | fixedDelay => "fixed_delay"

def Pace.next (pace : Pace) (due ended period : Nat) : Nat :=
  match pace with
  | fixedRate => due + period
  | fixedDelay => ended + period

structure Task (α : Type) where
  name : String
  pace : Pace
  delay : Nat
  period : Nat
  job : α
  due : Option Nat

def enlist (number : Nat) : List Nat → List Nat
  | [] => [number]
  | first :: rest =>
      if number < first then number :: first :: rest
      else if number = first then first :: rest
      else first :: enlist number rest

theorem mem_enlist {number other : Nat} {numbers : List Nat} :
    other ∈ enlist number numbers ↔ other = number ∨ other ∈ numbers := by
  induction numbers with
  | nil => simp [enlist]
  | cons first rest ih =>
      by_cases below : number < first
      · simp [enlist, below]
      · by_cases same : number = first
        · subst same
          simp [enlist]
        · simp only [enlist, if_neg below, if_neg same, List.mem_cons, ih]
          exact or_left_comm

end Timetable

structure Timetable (α : Type) where
  clock : Nat
  tasks : List (Option (Timetable.Task α))
  started : List Nat
  resetting : Bool

namespace Timetable

variable {α : Type}

def empty : Timetable α := ⟨0, [], [], false⟩

def task? (t : Timetable α) (number : Nat) : Option (Task α) := (t.tasks[number]?).join

def isStarted (t : Timetable α) (number : Nat) : Bool :=
  (t.task? number).any fun task => task.due.isSome

def running (t : Timetable α) : List Nat := t.started.filter fun number => (t.task? number).isSome

def startedCount (t : Timetable α) : Nat := t.running.length

def plan (t : Timetable α) (number : Nat) (task : Task α) (due : Option Nat) : Timetable α :=
  { t with tasks := t.tasks.set number (some { task with due := due }) }

def create (t : Timetable α) (name : String) (pace : Pace) (delay period : Nat) (job : α) :
    Outcome Nat × Timetable α :=
  if period = 0 then
    (.error (.settings ("scheduled task `" ++ name ++ "` requires a non-zero period")), t)
  else
    (.ok t.tasks.length,
      { t with tasks := t.tasks ++ [some ⟨name, pace, delay, period, job, none⟩] })

def start (t : Timetable α) (number : Nat) : Timetable α :=
  match t.task? number with
  | none => t
  | some task =>
      if task.due.isSome then t
      else
        { t.plan number task (some (t.clock + task.delay)) with
          started := enlist number t.started }

def stop (t : Timetable α) (number : Nat) : Bool × Timetable α :=
  match t.task? number with
  | none => (false, t)
  | some task =>
      if task.due.isSome then
        (true, { t.plan number task none with started := t.started.filter (· ≠ number) })
      else (false, t)

def drop (t : Timetable α) (number : Nat) : Timetable α :=
  { t with
    tasks := t.tasks.set number none
    started := t.started.filter (· ≠ number) }

def stopAll (t : Timetable α) : Timetable α :=
  t.running.foldl (fun table number => (table.stop number).2) t

def restart (t : Timetable α) (number : Nat) : Timetable α :=
  let (stopped, after) := t.stop number
  if stopped then after.start number else after

/-- Restarts all started tasks. A reset inside a reset does nothing. -/
def reset (t : Timetable α) : Timetable α :=
  if t.resetting then t
  else { t.running.foldl restart { t with resetting := true } with resetting := false }

def upcoming (t : Timetable α) : Option (Nat × Nat) :=
  (t.running.filterMap fun number => ((t.task? number).bind (·.due)).map (number, ·)).foldl
    (fun best entry => match best with
      | none => some entry
      | some first => if entry.2 < first.2 then some entry else some first) none

/-- Moves the clock to the next run of a task and plans the run after it. -/
def wake (t : Timetable α) (number : Nat) : Timetable α :=
  match t.task? number with
  | none => t
  | some task =>
      match task.due with
      | none => t
      | some due =>
          let now := max t.clock due
          { t.plan number task (some (task.pace.next due now task.period)) with clock := now }

end Timetable

end Switchboard
