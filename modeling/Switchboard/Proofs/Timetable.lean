import Mathlib.Data.Finset.Card
import Mathlib.Data.List.Nodup
import Switchboard.Timetable

/-! The table of started tasks beside the tasks. Each task knows by itself whether it is started,
and the table lists the started ones. To start, to stop, to drop and to reset change both, and
whatever is called in whatever order, the table lists just the tasks that are there and started:
those that were started last, by what was called alone. -/
namespace Switchboard.Timetable

variable {α : Type} {t : Timetable α} {number other : Nat} {task : Task α}

/-! ### One task -/

theorem ite_true_iff (number other : Nat) (flag : Bool) :
    (if number = other then true else flag) = true ↔ other = number ∨ flag = true := by
  by_cases own : number = other
  · simp [own]
  · simp [own, Ne.symm own]

theorem ite_false_iff (number other : Nat) (flag : Bool) :
    (if number = other then false else flag) = true ↔ other ≠ number ∧ flag = true := by
  by_cases own : number = other
  · simp [own]
  · simp [own, Ne.symm own]

theorem task?_plan (known : t.task? number = some task) (due : Option Nat) (other : Nat) :
    (t.plan number task due).task? other =
      if number = other then some { task with due := due } else t.task? other := by
  have below : number < t.tasks.length := by
    by_contra beyond
    rw [task?, List.getElem?_eq_none (Nat.not_lt.mp beyond)] at known
    cases known
  simp only [task?, plan, List.getElem?_set, below, if_true]
  split <;> rfl

theorem isStarted_eq (known : t.task? number = some task) :
    t.isStarted number = task.due.isSome := by
  rw [isStarted, known, Option.any_some]

theorem isSome_of_isStarted (started : t.isStarted number = true) :
    (t.task? number).isSome = true := by
  rw [isStarted, Option.any_eq_true_iff_get] at started
  exact started.1

theorem lt_of_isStarted (started : t.isStarted number = true) : number < t.tasks.length := by
  by_contra beyond
  have present := isSome_of_isStarted started
  rw [task?, List.getElem?_eq_none (Nat.not_lt.mp beyond)] at present
  cases present

theorem isStarted_plan (known : t.task? number = some task) (due : Option Nat) (other : Nat) :
    (t.plan number task due).isStarted other =
      if number = other then due.isSome else t.isStarted other := by
  rw [isStarted, task?_plan known]
  split <;> rfl

theorem start_cases (t : Timetable α) (number : Nat) :
    (t.start number = t ∧ (t.isStarted number = true ∨ t.task? number = none)) ∨
    ∃ task, t.task? number = some task ∧ t.isStarted number = false ∧ t.start number =
      { t.plan number task (some (t.clock + task.delay)) with
        started := enlist number t.started } := by
  cases known : t.task? number with
  | none => exact .inl ⟨by rw [start, known], .inr rfl⟩
  | some task =>
      by_cases due : task.due.isSome = true
      · refine .inl ⟨?_, .inl ((isStarted_eq known).trans due)⟩
        simp only [start, known, due, if_true]
      · refine .inr ⟨task, rfl, (isStarted_eq known).trans (Bool.eq_false_iff.mpr due), ?_⟩
        simp only [start, known, due]
        rfl

theorem stop_cases (t : Timetable α) (number : Nat) :
    (t.stop number = (false, t) ∧ t.isStarted number = false) ∨
    ∃ task, t.task? number = some task ∧ t.isStarted number = true ∧ t.stop number =
      (true, { t.plan number task none with started := t.started.filter (· ≠ number) }) := by
  cases known : t.task? number with
  | none => exact .inl ⟨by rw [stop, known], by rw [isStarted, known]; rfl⟩
  | some task =>
      by_cases due : task.due.isSome = true
      · refine .inr ⟨task, rfl, (isStarted_eq known).trans due, ?_⟩
        simp only [stop, known, due, if_true]
      · refine .inl ⟨?_, (isStarted_eq known).trans (Bool.eq_false_iff.mpr due)⟩
        simp only [stop, known, due]
        rfl

theorem start_of_isStarted (started : t.isStarted number = true) : t.start number = t := by
  rcases t.start_cases number with ⟨same, -⟩ | ⟨task, -, idle, -⟩
  · exact same
  · rw [started] at idle
    cases idle

theorem stop_of_not_isStarted (idle : t.isStarted number = false) :
    t.stop number = (false, t) := by
  rcases t.stop_cases number with ⟨same, -⟩ | ⟨task, -, started, -⟩
  · exact same
  · rw [started] at idle
    cases idle

theorem stop_fst (t : Timetable α) (number : Nat) : (t.stop number).1 = t.isStarted number := by
  rcases t.stop_cases number with ⟨same, idle⟩ | ⟨task, -, started, done⟩
  · rw [same, idle]
  · rw [done, started]

theorem restart_of_not_isStarted (idle : t.isStarted number = false) : t.restart number = t := by
  rw [restart, stop_of_not_isStarted idle]
  rfl

/-- The task has been created and not dropped. -/
def live (t : Timetable α) (number : Nat) : Bool := (t.task? number).isSome

/-- No task is created or dropped, and no reset begins or ends. -/
structure Lasts (t s : Timetable α) : Prop where
  size : s.tasks.length = t.tasks.length
  live : ∀ number, s.live number = t.live number
  resetting : s.resetting = t.resetting

theorem Lasts.refl (t : Timetable α) : Lasts t t := ⟨rfl, fun _ => rfl, rfl⟩

theorem Lasts.trans {s r : Timetable α} (first : Lasts t s) (second : Lasts s r) : Lasts t r :=
  ⟨second.size.trans first.size, fun number => (second.live number).trans (first.live number),
    second.resetting.trans first.resetting⟩

theorem lasts_foldl {f : Timetable α → Nat → Timetable α} (step : ∀ s number, Lasts s (f s number))
    (numbers : List Nat) (t : Timetable α) : Lasts t (numbers.foldl f t) := by
  induction numbers generalizing t with
  | nil => exact .refl t
  | cons first rest ih => exact (step t first).trans (ih (f t first))

theorem lasts_plan (known : t.task? number = some task) (due : Option Nat) (clock : Nat)
    (started : List Nat) :
    Lasts t { t.plan number task due with clock := clock, started := started } where
  size := List.length_set
  live other := by
    refine (congrArg Option.isSome (task?_plan known due other)).trans ?_
    split
    next same => rw [← same, live, known]; rfl
    next => rfl
  resetting := rfl

theorem lasts_start (t : Timetable α) (number : Nat) : Lasts t (t.start number) := by
  rcases t.start_cases number with ⟨same, -⟩ | ⟨task, known, -, done⟩
  · rw [same]
    exact .refl t
  · rw [done]
    exact lasts_plan known _ _ _

theorem lasts_stop (t : Timetable α) (number : Nat) : Lasts t (t.stop number).2 := by
  rcases t.stop_cases number with ⟨same, -⟩ | ⟨task, known, -, done⟩
  · rw [same]
    exact .refl t
  · rw [done]
    exact lasts_plan known none _ _

theorem isStarted_start (t : Timetable α) (number other : Nat) :
    (t.start number).isStarted other =
      if number = other then t.live number else t.isStarted other := by
  rcases t.start_cases number with ⟨same, started | missing⟩ | ⟨task, known, -, done⟩
  · rw [same]
    split
    next own => rw [← own, started, live, isSome_of_isStarted started]
    next => rfl
  · rw [same]
    split
    next own => rw [← own, live, isStarted, missing]; rfl
    next => rfl
  · rw [done]
    refine (isStarted_plan known _ other).trans ?_
    rw [live, known]
    rfl

theorem isStarted_stop (t : Timetable α) (number other : Nat) :
    (t.stop number).2.isStarted other =
      if number = other then false else t.isStarted other := by
  rcases t.stop_cases number with ⟨same, idle⟩ | ⟨task, known, -, done⟩
  · rw [same]
    split
    next own => rw [← own, idle]
    next => rfl
  · rw [done]
    exact isStarted_plan known none other

theorem task?_drop (t : Timetable α) (number other : Nat) :
    (t.drop number).task? other = if number = other then none else t.task? other := by
  simp only [task?, drop, List.getElem?_set]
  split
  · split <;> rfl
  · rfl

theorem live_drop (t : Timetable α) (number other : Nat) :
    (t.drop number).live other = if number = other then false else t.live other := by
  rw [live, task?_drop]
  split <;> rfl

theorem isStarted_drop (t : Timetable α) (number other : Nat) :
    (t.drop number).isStarted other =
      if number = other then false else t.isStarted other := by
  rw [isStarted, task?_drop]
  split <;> rfl

theorem task?_append (t : Timetable α) (task : Task α) (other : Nat) :
    task? { t with tasks := t.tasks ++ [some task] } other =
      if t.tasks.length = other then some task else t.task? other := by
  rw [task?, task?]
  rcases Nat.lt_trichotomy other t.tasks.length with below | here | beyond
  · rw [List.getElem?_append_left below, if_neg (Nat.ne_of_gt below)]
  · rw [here, List.getElem?_concat_length, if_pos rfl]
    rfl
  · rw [if_neg (Nat.ne_of_lt beyond), List.getElem?_eq_none (Nat.le_of_lt beyond),
      List.getElem?_eq_none (by rw [List.length_append]; exact beyond)]

theorem live_append (t : Timetable α) (task : Task α) (other : Nat) :
    live { t with tasks := t.tasks ++ [some task] } other =
      if t.tasks.length = other then true else t.live other := by
  rw [live, task?_append]
  split <;> rfl

theorem isStarted_append (t : Timetable α) {task : Task α} (idle : task.due = none) (other : Nat) :
    isStarted { t with tasks := t.tasks ++ [some task] } other = t.isStarted other := by
  rw [isStarted, task?_append, isStarted]
  split
  next new => rw [← new, Option.any_some, idle, task?, List.getElem?_eq_none (Nat.le_refl _)]; rfl
  next => rfl

theorem wake_cases (t : Timetable α) (number : Nat) :
    t.wake number = t ∨ ∃ task due, t.task? number = some task ∧ task.due = some due ∧
      t.wake number =
        { t.plan number task (some (task.pace.next due (max t.clock due) task.period)) with
          clock := max t.clock due } := by
  rw [wake]
  cases known : t.task? number with
  | none => exact .inl rfl
  | some task =>
      cases next : task.due with
      | none => exact .inl (by simp only [next])
      | some due => exact .inr ⟨task, due, rfl, next, by simp only [next]⟩

theorem isStarted_wake (t : Timetable α) (number other : Nat) :
    (t.wake number).isStarted other = t.isStarted other := by
  rcases t.wake_cases number with same | ⟨task, due, known, next, done⟩
  · rw [same]
  · rw [done]
    refine (isStarted_plan known _ other).trans ?_
    split
    next own => rw [← own, isStarted_eq known, next]; rfl
    next => rfl

theorem lasts_wake (t : Timetable α) (number : Nat) : Lasts t (t.wake number) := by
  rcases t.wake_cases number with same | ⟨task, due, known, -, done⟩
  · rw [same]
    exact .refl t
  · rw [done]
    exact lasts_plan known _ _ _

theorem lasts_restart (t : Timetable α) (number : Nat) : Lasts t (t.restart number) := by
  simp only [restart]
  split
  · exact (t.lasts_stop number).trans (lasts_start _ number)
  · exact t.lasts_stop number

/-! ### The table -/

theorem pairwise_enlist {numbers : List Nat} (ascending : numbers.Pairwise (· < ·)) (number : Nat) :
    (enlist number numbers).Pairwise (· < ·) := by
  induction numbers with
  | nil => exact List.pairwise_singleton _ _
  | cons first rest ih =>
      obtain ⟨above, later⟩ := List.pairwise_cons.mp ascending
      rw [enlist]
      split
      next below =>
        refine List.pairwise_cons.mpr ⟨fun n member => ?_, ascending⟩
        rcases List.mem_cons.mp member with rfl | after
        · exact below
        · exact Nat.lt_trans below (above n after)
      next notBelow =>
        split
        next => exact ascending
        next different =>
          refine List.pairwise_cons.mpr ⟨fun n member => ?_, ih later⟩
          rcases mem_enlist.mp member with rfl | after
          · omega
          · exact above n after

theorem mem_filter_ne_iff {numbers : List Nat} :
    other ∈ numbers.filter (· ≠ number) ↔ other ≠ number ∧ other ∈ numbers := by
  rw [List.mem_filter, decide_eq_true_eq, and_comm]

structure Orderly (t : Timetable α) : Prop where
  ascending : t.started.Pairwise (· < ·)
  listed_iff : ∀ number, number ∈ t.started ↔ t.isStarted number = true

theorem orderly_empty : (empty : Timetable α).Orderly :=
  ⟨List.Pairwise.nil, fun number => by simp [empty, isStarted, task?]⟩

namespace Orderly

theorem nodup (orderly : t.Orderly) : t.started.Nodup :=
  orderly.ascending.imp Nat.ne_of_lt

theorem congr (orderly : t.Orderly) {s : Timetable α} (started : s.started = t.started)
    (same : ∀ number, s.isStarted number = t.isStarted number) : s.Orderly :=
  ⟨started ▸ orderly.ascending, fun number => by
    rw [started, orderly.listed_iff, same]⟩

theorem running_eq (orderly : t.Orderly) : t.running = t.started :=
  List.filter_eq_self.mpr fun number listed =>
    isSome_of_isStarted ((orderly.listed_iff number).mp listed)

theorem start (orderly : t.Orderly) (number : Nat) : (t.start number).Orderly := by
  have flags := t.isStarted_start number
  rcases t.start_cases number with ⟨same, -⟩ | ⟨task, known, -, done⟩
  · rw [same]
    exact orderly
  · have table : (t.start number).started = enlist number t.started := by rw [done]
    refine ⟨table ▸ pairwise_enlist orderly.ascending number, fun other => ?_⟩
    rw [table, mem_enlist, orderly.listed_iff, flags, live, known]
    exact (ite_true_iff number other _).symm

theorem stop (orderly : t.Orderly) (number : Nat) : (t.stop number).2.Orderly := by
  have flags := t.isStarted_stop number
  rcases t.stop_cases number with ⟨same, -⟩ | ⟨task, -, -, done⟩
  · rw [same]
    exact orderly
  · have table : (t.stop number).2.started = t.started.filter (· ≠ number) := by rw [done]
    refine ⟨table ▸ orderly.ascending.sublist List.filter_sublist, fun other => ?_⟩
    rw [table, mem_filter_ne_iff, orderly.listed_iff, flags, ite_false_iff]

theorem drop (orderly : t.Orderly) (number : Nat) : (t.drop number).Orderly := by
  refine ⟨orderly.ascending.sublist List.filter_sublist, fun other => ?_⟩
  rw [isStarted_drop, ite_false_iff, ← orderly.listed_iff]
  exact mem_filter_ne_iff

theorem append (orderly : t.Orderly) {task : Task α} (idle : task.due = none) :
    Orderly { t with tasks := t.tasks ++ [some task] } :=
  orderly.congr rfl (isStarted_append t idle)

theorem create (orderly : t.Orderly) (name : String) (pace : Pace) (delay period : Nat) (job : α) :
    (t.create name pace delay period job).2.Orderly := by
  rw [Timetable.create]
  split
  · exact orderly
  · exact orderly.append rfl

theorem wake (orderly : t.Orderly) (number : Nat) : (t.wake number).Orderly := by
  refine orderly.congr ?_ (t.isStarted_wake number)
  rcases t.wake_cases number with same | ⟨task, due, -, -, done⟩
  · rw [same]
  · rw [done]
    rfl

theorem restart (orderly : t.Orderly) (number : Nat) : (t.restart number).Orderly := by
  simp only [Timetable.restart]
  split
  · exact (orderly.stop number).start number
  · exact orderly.stop number

end Orderly

theorem isStarted_restart (t : Timetable α) (number other : Nat) :
    (t.restart number).isStarted other = t.isStarted other := by
  cases started : t.isStarted number with
  | false => rw [restart_of_not_isStarted started]
  | true =>
      simp only [restart, stop_fst, started, if_true]
      rw [isStarted_start, (t.lasts_stop number).live, isStarted_stop]
      split
      next own => rw [← own, started, live, isSome_of_isStarted started]
      next => rfl

theorem isStarted_foldl_restart (numbers : List Nat) (t : Timetable α) (other : Nat) :
    (numbers.foldl restart t).isStarted other = t.isStarted other := by
  induction numbers generalizing t with
  | nil => rfl
  | cons first rest ih => exact (ih (t.restart first)).trans (t.isStarted_restart first other)

theorem isStarted_foldl_stop (numbers : List Nat) (t : Timetable α) (other : Nat) :
    (numbers.foldl (fun table number => (table.stop number).2) t).isStarted other =
      if other ∈ numbers then false else t.isStarted other := by
  induction numbers generalizing t with
  | nil => rfl
  | cons first rest ih =>
      rw [List.foldl_cons, ih, isStarted_stop]
      by_cases own : first = other
      · simp [own]
      · simp [own, Ne.symm own]

theorem Orderly.isStarted_stopAll (orderly : t.Orderly) (number : Nat) :
    t.stopAll.isStarted number = false := by
  rw [stopAll, isStarted_foldl_stop, orderly.running_eq]
  split
  · rfl
  next absent => exact Bool.eq_false_iff.mpr (mt (orderly.listed_iff number).mpr absent)

theorem Orderly.stopAll (orderly : t.Orderly) : t.stopAll.Orderly :=
  List.foldlRecOn t.running _ (motive := Orderly) orderly fun _ before number _ =>
    before.stop number

theorem Orderly.startedCount_eq_zero_iff (orderly : t.Orderly) :
    t.startedCount = 0 ↔ ∀ number, t.isStarted number = false := by
  rw [startedCount, orderly.running_eq, List.length_eq_zero_iff, List.eq_nil_iff_forall_not_mem]
  simp only [orderly.listed_iff, Bool.not_eq_true]

theorem Orderly.startedCount_eq_card (orderly : t.Orderly) :
    t.startedCount =
      ((Finset.range t.tasks.length).filter fun number => t.isStarted number = true).card := by
  have listed : t.started.toFinset =
      (Finset.range t.tasks.length).filter fun number => t.isStarted number = true := by
    ext number
    rw [List.mem_toFinset, orderly.listed_iff, Finset.mem_filter, Finset.mem_range]
    exact ⟨fun started => ⟨lt_of_isStarted started, started⟩, And.right⟩
  rw [startedCount, orderly.running_eq, ← listed, List.toFinset_card_of_nodup orderly.nodup]

def launch (t : Timetable α) (name : String) (pace : Pace) (delay period : Nat) (job : α) :
    Timetable α := (t.create name pace delay period job).2.start t.tasks.length

theorem launch_eq (t : Timetable α) (name : String) (pace : Pace) (delay : Nat) {period : Nat}
    (positive : 0 < period) (job : α) : t.launch name pace delay period job =
      start { t with tasks := t.tasks ++ [some ⟨name, pace, delay, period, job, none⟩] }
        t.tasks.length := by
  rw [launch, create, if_neg (Nat.ne_of_gt positive)]

theorem isStarted_launch (t : Timetable α) (name : String) (pace : Pace) (delay : Nat)
    {period : Nat} (positive : 0 < period) (job : α) (other : Nat) :
    (t.launch name pace delay period job).isStarted other =
      if t.tasks.length = other then true else t.isStarted other := by
  rw [launch_eq t name pace delay positive, isStarted_start, live_append, if_pos rfl]
  split
  · rfl
  · exact isStarted_append t rfl other

theorem length_launch (t : Timetable α) (name : String) (pace : Pace) (delay : Nat) {period : Nat}
    (positive : 0 < period) (job : α) :
    (t.launch name pace delay period job).tasks.length = t.tasks.length + 1 := by
  rw [launch_eq t name pace delay positive, (lasts_start _ _).size, List.length_append,
    List.length_singleton]

theorem Orderly.launch (orderly : t.Orderly) (name : String) (pace : Pace) (delay period : Nat)
    (job : α) : (t.launch name pace delay period job).Orderly :=
  (orderly.create name pace delay period job).start _

/-! ### Runs -/

/-- What is called on a timetable, and the next run of a task. -/
inductive Act (α : Type) where
  | create (name : String) (pace : Pace) (delay period : Nat) (job : α)
  | start (number : Nat)
  | stop (number : Nat)
  | drop (number : Nat)
  | reset
  | stopAll
  | wake (number : Nat)

def perform (t : Timetable α) : Act α → Timetable α
  | .create name pace delay period job => (t.create name pace delay period job).2
  | .start number => t.start number
  | .stop number => (t.stop number).2
  | .drop number => t.drop number
  | .reset => t.reset
  | .stopAll => t.stopAll
  | .wake number => t.wake number

def after (t : Timetable α) (past : List (Act α)) : Timetable α := past.foldl perform t

/-- How many tasks were created, which of them are there and which of these are started, told by the
calls alone. -/
structure Account where
  created : Nat
  there : Finset Nat
  started : Finset Nat

def Account.enter (a : Account) : Act α → Account
  | .create _ _ _ period _ =>
      if period = 0 then a
      else { a with created := a.created + 1, there := insert a.created a.there }
  | .start number => if number ∈ a.there then { a with started := insert number a.started } else a
  | .stop number => { a with started := a.started.erase number }
  | .drop number =>
      { a with there := a.there.erase number, started := a.started.erase number }
  | .reset => a
  | .stopAll => { a with started := ∅ }
  | .wake _ => a

def account (past : List (Act α)) : Account := past.foldl Account.enter ⟨0, ∅, ∅⟩

/-- The table and the tasks are as the account says, and no reset is under way. -/
structure Kept (a : Account) (t : Timetable α) : Prop extends Orderly t where
  size : t.tasks.length = a.created
  live_iff : ∀ number, number ∈ a.there ↔ t.live number = true
  started_iff : ∀ number, number ∈ a.started ↔ t.isStarted number = true
  idle : t.resetting = false

variable {a : Account}

theorem kept_empty : Kept ⟨0, ∅, ∅⟩ (empty : Timetable α) where
  toOrderly := orderly_empty
  size := rfl
  live_iff number := by simp [empty, live, task?]
  started_iff number := by simp [empty, isStarted, task?]
  idle := rfl

theorem Kept.lasts (kept : Kept a t) {s : Timetable α} {started : Finset Nat}
    (orderly : s.Orderly) (lasts : Lasts t s)
    (same : ∀ number, number ∈ started ↔ s.isStarted number = true) :
    Kept { a with started := started } s where
  toOrderly := orderly
  size := lasts.size.trans kept.size
  live_iff number := by rw [lasts.live, kept.live_iff]
  started_iff := same
  idle := lasts.resetting.trans kept.idle

theorem Kept.start (kept : Kept a t) (number : Nat) :
    Kept (a.enter (.start number : Act α)) (t.start number) := by
  have lasts := t.lasts_start number
  have orderly := kept.toOrderly.start number
  rw [Account.enter]
  split
  next there =>
    refine kept.lasts orderly lasts fun other => ?_
    rw [isStarted_start, (kept.live_iff number).mp there, ite_true_iff, Finset.mem_insert,
      kept.started_iff]
  next gone =>
    refine kept.lasts orderly lasts fun other => ?_
    rw [isStarted_start, kept.started_iff]
    split
    next own =>
      have missing : t.live number = false :=
        Bool.eq_false_iff.mpr (mt (kept.live_iff number).mpr gone)
      rw [missing, ← own]
      exact iff_of_eq (congrArg (· = true)
        (Bool.eq_false_iff.mpr fun started => by
          rw [live, isSome_of_isStarted started] at missing
          cases missing))
    next => rfl

theorem Kept.stop (kept : Kept a t) (number : Nat) :
    Kept (a.enter (.stop number : Act α)) (t.stop number).2 := by
  refine kept.lasts (kept.toOrderly.stop number) (t.lasts_stop number) fun other => ?_
  rw [isStarted_stop, ite_false_iff, Finset.mem_erase, kept.started_iff]

theorem Kept.create (kept : Kept a t) (name : String) (pace : Pace) (delay period : Nat) (job : α) :
    Kept (a.enter (.create name pace delay period job))
      (t.create name pace delay period job).2 := by
  rw [Account.enter, Timetable.create]
  split
  · exact kept
  · have new :
        Orderly { t with tasks := t.tasks ++ [some ⟨name, pace, delay, period, job, none⟩] } :=
      kept.toOrderly.append rfl
    refine ⟨new, ?_, fun number => ?_, fun number => ?_, kept.idle⟩
    · rw [List.length_append, kept.size]
      rfl
    · rw [live_append, ite_true_iff, Finset.mem_insert, kept.live_iff, ← kept.size]
    · rw [kept.started_iff, ← new.listed_iff, ← kept.toOrderly.listed_iff]

theorem Kept.drop (kept : Kept a t) (number : Nat) :
    Kept (a.enter (.drop number : Act α)) (t.drop number) where
  toOrderly := kept.toOrderly.drop number
  size := (List.length_set).trans kept.size
  live_iff other := by
    rw [Account.enter, Finset.mem_erase, kept.live_iff, live_drop, ite_false_iff]
  started_iff other := by
    rw [Account.enter, Finset.mem_erase, kept.started_iff, isStarted_drop, ite_false_iff]
  idle := kept.idle

theorem Kept.stopAll (kept : Kept a t) : Kept (a.enter (.stopAll : Act α)) t.stopAll := by
  refine kept.lasts kept.toOrderly.stopAll (lasts_foldl lasts_stop t.running t) fun number => ?_
  rw [kept.toOrderly.isStarted_stopAll]
  simp

theorem isStarted_reset (t : Timetable α) (number : Nat) :
    t.reset.isStarted number = t.isStarted number := by
  rw [reset]
  split
  · rfl
  · exact isStarted_foldl_restart t.running { t with resetting := true } number

theorem Kept.reset (kept : Kept a t) : Kept a t.reset := by
  have lasts := lasts_foldl lasts_restart t.running { t with resetting := true }
  have begun : Orderly { t with resetting := true } := kept.toOrderly.congr rfl fun _ => rfl
  have orderly : (t.running.foldl restart { t with resetting := true }).Orderly :=
    List.foldlRecOn t.running restart (motive := Orderly) begun fun _ before number _ =>
      before.restart number
  have flags := t.isStarted_reset
  rw [Timetable.reset, kept.idle] at flags ⊢
  exact
    { toOrderly := orderly.congr rfl fun _ => rfl
      size := lasts.size.trans kept.size
      live_iff := fun number =>
        (kept.live_iff number).trans (iff_of_eq (congrArg (· = true) (lasts.live number).symm))
      started_iff := fun number => by rw [flags, kept.started_iff]
      idle := rfl }

theorem Kept.wake (kept : Kept a t) (number : Nat) : Kept a (t.wake number) :=
  kept.lasts (kept.toOrderly.wake number) (t.lasts_wake number) fun other => by
    rw [isStarted_wake, kept.started_iff]

theorem Kept.perform (kept : Kept a t) (act : Act α) : Kept (a.enter act) (t.perform act) := by
  cases act with
  | create name pace delay period job => exact kept.create name pace delay period job
  | start number => exact kept.start number
  | stop number => exact kept.stop number
  | drop number => exact kept.drop number
  | reset => exact kept.reset
  | stopAll => exact kept.stopAll
  | wake number => exact kept.wake number

theorem Kept.after (kept : Kept a t) (past : List (Act α)) :
    Kept (past.foldl Account.enter a) (t.after past) := by
  induction past generalizing a t with
  | nil => exact kept
  | cons act rest ih => exact ih (kept.perform act)

/-- The tasks a reset has come to are started as before, and so are the others. -/
theorem isStarted_midway (t : Timetable α) (passed number : Nat) :
    ((t.running.take passed).foldl restart { t with resetting := true }).isStarted number =
      t.isStarted number :=
  isStarted_foldl_restart _ { t with resetting := true } number

/-- The table and the tasks agree with one another and with the calls so far, and each call does to
them what it is for. -/
structure InStep (past : List (Act α)) (t : Timetable α) : Prop where
  listed_iff : ∀ number, number ∈ t.started ↔ t.live number = true ∧ t.isStarted number = true
  once : t.started.Nodup
  count : t.startedCount =
    ((Finset.range t.tasks.length).filter fun number => t.isStarted number = true).card
  live_iff : ∀ number, t.live number = true ↔ number ∈ (account past).there
  isStarted_iff : ∀ number, t.isStarted number = true ↔ number ∈ (account past).started
  start_again : ∀ number, t.isStarted number = true → t.start number = t
  stop_again : ∀ number, t.isStarted number = false → (t.stop number).2 = t
  stop_says : ∀ number, (t.stop number).1 = t.isStarted number
  reset_keeps : ∀ number, t.reset.isStarted number = t.isStarted number
  reset_midway : ∀ passed number,
    ((t.running.take passed).foldl restart { t with resetting := true }).isStarted number =
      t.isStarted number
  restart_stopped : ∀ number, t.isStarted number = false → t.restart number = t
  reset_ends : t.reset.resetting = false
  stopAll_leaves : ∀ number, t.stopAll.isStarted number = false
  stopAll_count : t.stopAll.startedCount = 0
  create_refuses : ∀ name pace delay job, t.create name pace delay 0 job =
    (.error (.settings ("scheduled task `" ++ name ++ "` requires a non-zero period")), t)

theorem table_follows_calls (past : List (Act α)) : InStep past (empty.after past) := by
  have kept : Kept (account past) (empty.after past) := kept_empty.after past
  exact
    { listed_iff := fun number => by
        rw [kept.listed_iff]
        exact ⟨fun started => ⟨isSome_of_isStarted started, started⟩, And.right⟩
      once := kept.toOrderly.nodup
      count := kept.toOrderly.startedCount_eq_card
      live_iff := fun number => (kept.live_iff number).symm
      isStarted_iff := fun number => (kept.started_iff number).symm
      start_again := fun _ started => start_of_isStarted started
      stop_again := fun _ idle => by rw [stop_of_not_isStarted idle]
      stop_says := stop_fst _
      reset_keeps := isStarted_reset _
      reset_midway := isStarted_midway _
      restart_stopped := fun _ idle => restart_of_not_isStarted idle
      reset_ends := kept.reset.idle
      stopAll_leaves := kept.toOrderly.isStarted_stopAll
      stopAll_count := kept.toOrderly.stopAll.startedCount_eq_zero_iff.mpr
        kept.toOrderly.isStarted_stopAll
      create_refuses := fun _ _ _ _ => rfl }

/-- Three tasks, of which the second is dropped while started and the third stopped. -/
def errands : List (Act Unit) :=
  [.create "rescan" .fixedDelay 0 5 (), .create "sweep" .fixedRate 2 5 (),
    .create "report" .fixedRate 0 9 (), .create "never" .fixedRate 0 0 (), .start 2, .start 1,
    .start 0, .start 1, .wake 0, .drop 1, .stop 2, .stop 2, .start 7, .reset]

theorem table_follows_errands :
    (empty.after errands).started = [0] ∧ (account errands).there = {0, 2} ∧
    (empty.after errands).startedCount = 1 ∧
    (empty.after errands).start 0 = empty.after errands := by
  have followed : InStep errands (empty.after errands) := table_follows_calls errands
  have started : (empty.after errands).started = [0] := by decide
  refine ⟨started, by decide, by decide, followed.start_again 0 ?_⟩
  exact ((followed.listed_iff 0).mp (started ▸ List.mem_singleton_self 0)).2

end Switchboard.Timetable
