import Mathlib.Data.Nat.Count
import Mathlib.Data.List.FinRange
import Switchboard.Rotation

/-! What a rotation gives each provider. As many consecutive ticks as the weights amount to choose
every position as often as its weight says, wherever they start. Draws for other services and draws
from empty lists in between change nothing, since each service has a counter of its own. -/
namespace Switchboard

namespace Provider

theorem weight_le (p : Provider) : p.weight ≤ Text.bound32 := by
  unfold weight Text.whole?
  cases given : p.attribute? weightKey with
  | none => decide
  | some text =>
      simp only [Option.bind_some]
      cases read : Text.readWhole Text.bound32 (Text.trimChars text.toList) with
      | error _ => exact show defaultWeight ≤ Text.bound32 by decide
      | ok n => exact Text.readWhole_le read

theorem effectiveWeight_le (p : Provider)
    (h : ∀ weight, p.warmupWeight = some weight → weight ≤ Text.bound32) (now : Nat) :
    p.effectiveWeight now ≤ Text.bound32 := by
  unfold effectiveWeight
  split
  next weight warming =>
    split
    · exact h weight warming
    · exact p.weight_le
  next => exact p.weight_le

end Provider

namespace Rotation

section Locate

variable {α β : Type}

theorem totalWeight_map (weight : β → Nat) (f : α → β) (list : List α) :
    totalWeight weight (list.map f) = totalWeight (fun x => weight (f x)) list := by
  induction list with
  | nil => rfl
  | cons x rest ih => rw [List.map_cons, totalWeight, totalWeight, ih]

theorem totalWeight_le (weight : α → Nat) {bound : Nat} {list : List α}
    (h : ∀ x ∈ list, weight x ≤ bound) : totalWeight weight list ≤ list.length * bound := by
  induction list with
  | nil => exact Nat.zero_le _
  | cons x rest ih =>
      have first := h x List.mem_cons_self
      have others := ih fun y member => h y (List.mem_cons_of_mem x member)
      rw [totalWeight, List.length_cons, Nat.succ_mul]
      omega

theorem totalWeight_eq_zero_iff (weight : α → Nat) (list : List α) :
    totalWeight weight list = 0 ↔ ∀ x ∈ list, weight x = 0 := by
  induction list with
  | nil => simp [totalWeight]
  | cons x rest ih => rw [totalWeight, Nat.add_eq_zero_iff, ih, List.forall_mem_cons]

theorem locate_map (weight : β → Nat) (f : α → β) (list : List α) (target : Nat) :
    locate weight (list.map f) target = (locate (fun x => weight (f x)) list target).map f := by
  induction list generalizing target with
  | nil => rfl
  | cons x rest ih =>
      rw [List.map_cons, locate, locate, ih]
      split <;> rfl

theorem totalWeight_one (list : List α) : totalWeight (fun _ => 1) list = list.length := by
  induction list with
  | nil => rfl
  | cons x rest ih => rw [totalWeight, ih, List.length_cons, Nat.add_comm]

theorem locate_one (list : List α) (target : Nat) :
    locate (fun _ => 1) list target = list[target]? := by
  induction list generalizing target with
  | nil => rfl
  | cons x rest ih =>
      cases target with
      | zero => rfl
      | succ target =>
          rw [locate, if_neg (by omega), ih, Nat.add_sub_cancel, List.getElem?_cons_succ]

theorem totalWeight_eq_finRange (weight : α → Nat) (list : List α) :
    totalWeight weight list =
      totalWeight (fun i => weight (list.get i)) (List.finRange list.length) := by
  conv_lhs => rw [← List.map_get_finRange list, totalWeight_map]

theorem locate_eq_finRange (weight : α → Nat) (list : List α) (target : Nat) :
    locate weight list target =
      (locate (fun i => weight (list.get i)) (List.finRange list.length) target).map list.get := by
  conv_lhs => rw [← List.map_get_finRange list, locate_map]

theorem locate_of_lt (weight : α → Nat) {list : List α} {target : Nat}
    (h : target < totalWeight weight list) :
    ∃ i x, list[i]? = some x ∧ locate weight list target = some x ∧
      totalWeight weight (list.take i) ≤ target ∧
      target < totalWeight weight (list.take i) + weight x := by
  induction list generalizing target with
  | nil => exact absurd h (Nat.not_lt_zero target)
  | cons x rest ih =>
      rw [totalWeight] at h
      by_cases own : target < weight x
      · refine ⟨0, x, rfl, if_pos own, Nat.zero_le _, ?_⟩
        rw [List.take_zero, totalWeight]
        omega
      · obtain ⟨i, y, found, located, low, high⟩ := ih (show target - weight x < _ by omega)
        refine ⟨i + 1, y, found, (if_neg own).trans located, ?_, ?_⟩ <;>
          rw [List.take_succ_cons, totalWeight] <;> omega

/-- Each occurrence of an element owns as many targets as its weight. -/
theorem count_locate [DecidableEq α] (weight : α → Nat) (list : List α) (x : α) :
    Nat.count (fun target => locate weight list target = some x) (totalWeight weight list) =
      list.count x * weight x := by
  induction list with
  | nil => simp [totalWeight]
  | cons y rest ih =>
      have inside : Nat.count (fun target => locate weight (y :: rest) target = some x)
          (weight y) = if y = x then weight x else 0 := by
        have falls : ∀ target, target < weight y →
            (locate weight (y :: rest) target = some x ↔ y = x) := by
          intro target below
          rw [locate, if_pos below, Option.some_inj]
        by_cases same : y = x
        · subst same
          rw [if_pos rfl]
          exact Nat.count_of_forall fun target below => (falls target below).mpr rfl
        · rw [if_neg same]
          exact Nat.count_of_forall_not fun target below => mt (falls target below).mp same
      have behind : ∀ target, locate weight (y :: rest) (weight y + target) =
          locate weight rest target := by
        intro target
        rw [locate, if_neg (by omega), Nat.add_sub_cancel_left]
      rw [totalWeight, Nat.count_add, inside]
      simp only [behind, ih, List.count_cons, beq_iff_eq, Nat.add_mul]
      split <;> omega

end Locate

theorem count_shift {p : Nat → Prop} [DecidablePred p] {period : Nat}
    (periodic : ∀ n, p (period + n) ↔ p n) (start : Nat) :
    Nat.count (fun n => p (start + n)) period = Nat.count p period := by
  have turned : Nat.count p (period + start) = Nat.count p period + Nat.count p start := by
    rw [Nat.count_add]
    simp only [periodic]
  rw [Nat.add_comm, Nat.count_add] at turned
  omega

structure Draw where
  service : String
  providers : List Provider
  now : Nat
deriving DecidableEq

namespace Draw

def weight (d : Draw) (i : Fin d.providers.length) : Nat :=
  (d.providers.get i).effectiveWeight d.now

def total (d : Draw) : Nat := totalWeight (·.effectiveWeight d.now) d.providers

/-- After how many ticks the choices repeat. -/
def cycle (d : Draw) : Nat := if d.total = 0 then d.providers.length else d.total

/-- How often a position is chosen in a cycle. -/
def share (d : Draw) (i : Fin d.providers.length) : Nat := if d.total = 0 then 1 else d.weight i

def position (d : Draw) (tick : Nat) : Option (Fin d.providers.length) :=
  locate d.share (List.finRange d.providers.length) (tick % d.cycle)

theorem totalWeight_share (d : Draw) :
    totalWeight d.share (List.finRange d.providers.length) = d.cycle := by
  by_cases weightless : d.total = 0
  · have even : d.share = fun _ => 1 := funext fun _ => if_pos weightless
    rw [even, totalWeight_one, List.length_finRange, cycle, if_pos weightless]
  · have weighted : d.share = d.weight := funext fun _ => if_neg weightless
    rw [weighted, cycle, if_neg weightless]
    exact (totalWeight_eq_finRange (·.effectiveWeight d.now) d.providers).symm

theorem cycle_pos {d : Draw} (stocked : d.providers ≠ []) : 0 < d.cycle := by
  unfold cycle
  split
  · exact List.length_pos_iff.mpr stocked
  · omega

theorem pick_eq (d : Draw) (tick : Nat) :
    pick d.providers d.now tick = match d.position tick with
      | some i => .ok (d.providers.get i)
      | none => .error (.internal "weighted selection overran the provider list") := by
  have chosen : (if d.total = 0 then d.providers[tick % d.providers.length]?
      else locate (·.effectiveWeight d.now) d.providers (tick % d.total)) =
        (d.position tick).map d.providers.get := by
    rw [position, cycle]
    by_cases weightless : d.total = 0
    · have even : d.share = fun _ => 1 := funext fun _ => if_pos weightless
      rw [if_pos weightless, if_pos weightless, even, ← locate_one, locate_eq_finRange]
    · have weighted : d.share = d.weight := funext fun _ => if_neg weightless
      rw [if_neg weightless, if_neg weightless, weighted, locate_eq_finRange]
      rfl
  rw [total] at chosen
  rw [pick]
  simp only [chosen]
  cases d.position tick <;> rfl

theorem exists_position (d : Draw) (stocked : d.providers ≠ []) (tick : Nat) :
    ∃ i : Fin d.providers.length, d.position tick = some i ∧
      totalWeight d.share ((List.finRange d.providers.length).take i) ≤ tick % d.cycle ∧
      tick % d.cycle <
        totalWeight d.share ((List.finRange d.providers.length).take i) + d.share i := by
  have below : tick % d.cycle < totalWeight d.share (List.finRange d.providers.length) := by
    rw [totalWeight_share]
    exact Nat.mod_lt tick (cycle_pos stocked)
  obtain ⟨k, i, found, located, low, high⟩ := locate_of_lt d.share below
  have same : k = i := by
    obtain ⟨_, at_k⟩ := List.getElem?_eq_some_iff.mp found
    rw [← at_k]
    simp
  rw [same] at low high
  exact ⟨i, located, low, high⟩

theorem position_add_cycle (d : Draw) (tick : Nat) :
    d.position (d.cycle + tick) = d.position tick := by
  unfold position
  rw [Nat.add_mod_left]

theorem count_position (d : Draw) (start : Nat) (i : Fin d.providers.length) :
    Nat.count (fun tick => d.position (start + tick) = some i) d.cycle = d.share i := by
  rw [count_shift (p := fun tick => d.position tick = some i)
    (fun tick => by rw [position_add_cycle]) start]
  have inside : Nat.count (fun tick => d.position tick = some i) d.cycle =
      Nat.count (fun target => locate d.share (List.finRange d.providers.length) target = some i)
        d.cycle := by
    refine List.countP_congr fun tick member => ?_
    simp only [position, Nat.mod_eq_of_lt (List.mem_range.mp member)]
  have once : (List.finRange d.providers.length).count i = 1 :=
    List.count_eq_one_of_mem (List.nodup_finRange _) (List.mem_finRange i)
  rw [inside, ← totalWeight_share, count_locate, once, Nat.one_mul]

end Draw

theorem exists_pick {providers : List Provider} (stocked : providers ≠ []) (now tick : Nat) :
    ∃ provider ∈ providers, pick providers now tick = .ok provider ∧
      (0 < provider.effectiveWeight now ∨ ∀ other ∈ providers, other.effectiveWeight now = 0) := by
  let d : Draw := ⟨"", providers, now⟩
  obtain ⟨i, found, low, high⟩ := d.exists_position stocked tick
  refine ⟨d.providers.get i, List.get_mem _ i, (d.pick_eq tick).trans (by rw [found]), ?_⟩
  by_cases weightless : d.total = 0
  · exact .inr ((totalWeight_eq_zero_iff _ _).mp weightless)
  · have share : d.share i = d.weight i := if_neg weightless
    exact .inl (show 0 < d.weight i by omega)

def answers (r : Rotation) : List Draw → List (Draw × Outcome Provider)
  | [] => []
  | d :: rest =>
      let (outcome, after) := r.select d.service d.providers d.now
      (d, outcome) :: answers after rest

def answersTo (own : Draw) (r : Rotation) (draws : List Draw) : List (Outcome Provider) :=
  ((r.answers draws).filter fun answer => decide (answer.1 = own)).map (·.2)

theorem select_nil (r : Rotation) (service : String) (now : Nat) :
    r.select service [] now = (.error (.noProvider service), r) := rfl

theorem select_of_ne_nil (r : Rotation) (service : String) {providers : List Provider}
    (stocked : providers ≠ []) (now : Nat) :
    r.select service providers now =
      (pick providers now (r.tick service), r.advance service) := by
  rw [select, if_neg (by simpa using stocked)]

theorem tick_advance (r : Rotation) (service other : String) :
    (r.advance service).tick other =
      if service = other then (r.tick service + 1) % period else r.tick other := by
  simp only [tick, advance, Dictionary.getD, Dictionary.get?_insert]
  split <;> rfl

theorem tick_select_of_idle (r : Rotation) {d : Draw} {service : String}
    (idle : d.service ≠ service ∨ d.providers = []) :
    (r.select d.service d.providers d.now).2.tick service = r.tick service := by
  by_cases stocked : d.providers = []
  · rw [stocked, select_nil]
  · rw [select_of_ne_nil r d.service stocked, tick_advance, if_neg (idle.resolve_right stocked)]

theorem answersTo_eq (r : Rotation) {own : Draw} (stocked : own.providers ≠ []) {draws : List Draw}
    (mixed : ∀ d ∈ draws, d = own ∨ d.service ≠ own.service ∨ d.providers = [])
    (room : r.tick own.service + draws.count own ≤ period) :
    answersTo own r draws = (List.range (draws.count own)).map fun k =>
      pick own.providers own.now (r.tick own.service + k) := by
  induction draws generalizing r with
  | nil => rfl
  | cons d rest ih =>
      have others := fun d member => mixed d (List.mem_cons_of_mem _ member)
      by_cases same : d = own
      · subst same
        rw [List.count_cons_self] at room ⊢
        have ticked : (r.advance d.service).tick d.service = (r.tick d.service + 1) % period := by
          rw [tick_advance, if_pos rfl]
        have onward := ih (r.advance d.service) others (by rw [ticked]; unfold period at *; omega)
        rw [answersTo, answers, select_of_ne_nil r d.service stocked,
          List.filter_cons_of_pos (by simp), List.map_cons, ← answersTo, onward,
          List.range_succ_eq_map, List.map_cons, List.map_map]
        congr 1
        refine List.map_congr_left fun k member => ?_
        have inside := List.mem_range.mp member
        have unwrapped : (r.tick d.service + 1) % period = r.tick d.service + 1 :=
          Nat.mod_eq_of_lt (by omega)
        rw [ticked, unwrapped, Function.comp_apply, Nat.succ_eq_add_one, Nat.add_assoc,
          Nat.add_comm 1 k]
      · have idle := (mixed d List.mem_cons_self).resolve_left same
        have kept := tick_select_of_idle r idle
        rw [List.count_cons_of_ne same] at room ⊢
        rw [answersTo, answers, List.filter_cons_of_neg (by simpa using same), ← answersTo,
          ih _ others (by rw [kept]; exact room), kept]

/-- Draws among which one kind is made as often as its cycle has ticks, before its counter starts
again. All others leave this counter alone. -/
structure Window (own : Draw) (r : Rotation) (draws : List Draw) : Prop where
  mixed : ∀ d ∈ draws, d = own ∨ d.service ≠ own.service ∨ d.providers = []
  full : draws.count own = own.cycle
  room : r.tick own.service + own.cycle ≤ period

theorem Window.shares {own : Draw} {r : Rotation} {draws : List Draw}
    (window : Window own r draws) (stocked : own.providers ≠ []) :
    ∃ positions : List (Fin own.providers.length),
      positions.map some = (List.range own.cycle).map (fun k =>
        own.position (r.tick own.service + k)) ∧
      answersTo own r draws = positions.map (fun i => .ok (own.providers.get i)) ∧
      ∀ i, positions.count i = own.share i := by
  have each := fun tick => (own.exists_position stocked tick).imp fun _ found => found.1
  choose place placed using each
  have answered := answersTo_eq r stocked window.mixed (by rw [window.full]; exact window.room)
  refine ⟨(List.range own.cycle).map fun k => place (r.tick own.service + k), ?_, ?_, fun i => ?_⟩
  · simp only [List.map_map, Function.comp_def, placed]
  · rw [answered, window.full, List.map_map]
    refine List.map_congr_left fun k _ => ?_
    rw [own.pick_eq, placed]
    rfl
  · rw [← own.count_position (r.tick own.service) i, List.count, List.countP_map]
    simp only [Function.comp_def, placed, Option.some_inj]
    rfl

theorem Draw.total_lt {d : Draw} (few : d.providers.length < 2 ^ 32)
    (fits : ∀ p ∈ d.providers, ∀ weight, p.warmupWeight = some weight → weight < 2 ^ 32) :
    d.total < 2 ^ 64 := by
  have each : ∀ p ∈ d.providers, p.effectiveWeight d.now ≤ Text.bound32 := fun p member =>
    p.effectiveWeight_le (fun weight given => Nat.le_of_lt_succ (fits p member weight given)) _
  calc d.total ≤ d.providers.length * Text.bound32 := totalWeight_le _ each
    _ ≤ (2 ^ 32 - 1) * Text.bound32 := Nat.mul_le_mul_right _ (Nat.le_sub_one_of_lt few)
    _ < 2 ^ 64 := by decide

/-- A draw from providers always chooses one of them: the weights add up to a number of 64 bits, and
up to the chosen position no more is subtracted from the target than it holds. In a window each
position is chosen as often as its weight says, or once if all weights are zero. A draw from
nothing fails and leaves no trace. -/
theorem draws_follow_weights (r : Rotation) (own : Draw) (stocked : own.providers ≠ [])
    (few : own.providers.length < 2 ^ 32)
    (fits : ∀ p ∈ own.providers, ∀ weight, p.warmupWeight = some weight → weight < 2 ^ 32) :
    own.total < 2 ^ 64 ∧
    (∃ i : Fin own.providers.length,
      (r.select own.service own.providers own.now).1 = .ok (own.providers.get i) ∧
      own.position (r.tick own.service) = some i ∧
      totalWeight own.share ((List.finRange own.providers.length).take i) ≤
        r.tick own.service % own.cycle ∧
      r.tick own.service % own.cycle <
        totalWeight own.share ((List.finRange own.providers.length).take i) + own.share i) ∧
    (∀ draws, Window own r draws → ∃ positions : List (Fin own.providers.length),
      positions.map some = (List.range own.cycle).map (fun k =>
        own.position (r.tick own.service + k)) ∧
      answersTo own r draws = positions.map (fun i => .ok (own.providers.get i)) ∧
      ∀ i, positions.count i =
        if own.total = 0 then 1 else (own.providers.get i).effectiveWeight own.now) ∧
    ∀ service now, r.select service [] now = (.error (.noProvider service), r) := by
  refine ⟨Draw.total_lt few fits, ?_, fun draws window => window.shares stocked, r.select_nil⟩
  obtain ⟨i, placed, low, high⟩ := own.exists_position stocked (r.tick own.service)
  refine ⟨i, ?_, placed, low, high⟩
  rw [select_of_ne_nil r own.service stocked, own.pick_eq, placed]

def uneven : Draw where
  service := "echo"
  providers :=
    [(Provider.new "10.0.0.1" 1 "bolt").withAttribute Provider.weightKey "3",
      (Provider.new "10.0.0.1" 2 "bolt").withAttribute Provider.weightKey "0",
      (Provider.new "10.0.0.1" 3 "bolt").withAttribute Provider.weightKey "1"]
  now := 0

def late : Rotation := ⟨Dictionary.empty.insert "echo" (period - 4)⟩

def interleaved : List Draw :=
  [uneven, { uneven with service := "time" }, uneven, { uneven with providers := [] }, uneven,
    { uneven with service := "time" }, uneven]

theorem draws_follow_weights_interleaved :
    uneven.providers ≠ [] ∧ uneven.providers.length < 2 ^ 32 ∧
    (∀ p ∈ uneven.providers, ∀ weight, p.warmupWeight = some weight → weight < 2 ^ 32) ∧
    Window uneven late interleaved ∧
    ∃ positions : List (Fin 3),
      answersTo uneven late interleaved =
        positions.map (fun i => .ok (uneven.providers.get i)) ∧
      positions.count 0 = 3 ∧ positions.count 1 = 0 ∧ positions.count 2 = 1 := by
  have stocked : uneven.providers ≠ [] := by decide
  have few : uneven.providers.length < 2 ^ 32 := by decide
  have fits : ∀ p ∈ uneven.providers, ∀ weight, p.warmupWeight = some weight →
      weight < 2 ^ 32 := by
    intro p member weight given
    simp only [uneven, List.mem_cons, List.not_mem_nil, or_false] at member
    rcases member with rfl | rfl | rfl <;> cases given
  have window : Window uneven late interleaved := ⟨by decide, by decide, by decide⟩
  obtain ⟨positions, -, answered, shares⟩ :=
    (draws_follow_weights late uneven stocked few fits).2.2.1 interleaved window
  refine ⟨stocked, few, fits, window, positions, answered, ?_, ?_, ?_⟩
  · exact (shares (0 : Fin 3)).trans (by decide)
  · exact (shares (1 : Fin 3)).trans (by decide)
  · exact (shares (2 : Fin 3)).trans (by decide)

end Rotation

end Switchboard
