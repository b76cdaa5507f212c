import Mathlib.Data.Finset.Max
import Wittche.Process.Runs

/-! Turns among the processes of the highest priority. The tie-breaker of `process_schedule`
takes the last of them behind the current process, and the first one if none is behind it.
Two processes take turns that way; the others between the first and the last never run. -/

namespace Wittche.Process

/-- A process that is ready, or that runs now. -/
def Runnable (s : Processes) (i : Nat) : Prop :=
  Used s i ∧ ((inSlot s i).state = .ready ∨ s.table i = s.current ∧ (inSlot s i).state = .running)

instance (s : Processes) (i : Nat) : Decidable (Runnable s i) := inferInstanceAs (Decidable (_ ∧ _))

/-- The slots of the runnable processes of the highest priority. -/
def peers (s : Processes) : Finset Nat :=
  (Finset.range MAX_PROCESSES).filter fun i => Runnable s i ∧
    ∀ j < MAX_PROCESSES, Runnable s j → (inSlot s j).priority ≤ (inSlot s i).priority

/-- In as many calls of `process_schedule` as there are peers each of them gets one turn. -/
def RoundRobin (s : Processes) : Prop :=
  ∀ i ∈ peers s, ∃! n, n < (peers s).card ∧ (processSchedule^[n + 1] s).current = s.table i

/-- A process table: some process is there, each in one slot, and those that are ready have
nothing left to do in `process_schedule` but to return. -/
structure Schedulable (s : Processes) : Prop where
  count : s.count ≠ 0
  once : ∀ i j, Used s i → Used s j → s.table i = s.table j → i = j
  rest : ∀ i, Used s i → (inSlot s i).state = .ready → s.rest (s.table i) = .back

theorem Inv.schedulable {s : Processes} (inv : Inv s) : Schedulable s := by
  obtain ⟨slots, -, states, -⟩ := inv
  refine ⟨?_, fun i j usedi usedj same => ?_, fun i used ready => ?_⟩
  · have pos := Finset.card_pos.mpr ⟨0, mem_usedSlots.mpr slots.seats.used_zero⟩
    rw [slots.count]
    omega
  · refine slots.pids i j usedi usedj ?_
    rw [inSlot, inSlot, same]
  · refine states.rest i used ?_
    rw [ready]
    decide

section Scan

variable {s : Processes}

def ReadyAt (s : Processes) (i : Nat) : Prop := Used s i ∧ (inSlot s i).state = .ready

def Behind (s : Processes) (i : Nat) : Prop :=
  s.current ≠ 0 ∧ ∃ j, s.findSlot (fun q => decide (q = s.current)) = some j ∧ j < i

/-- What the search holds after the slots below `n`: of those with the highest priority the
last one behind the current process, or the first one if none is behind it. -/
structure Picked (s : Processes) (n m : Nat) : Prop where
  lt : m < n
  ready : ReadyAt s m
  highest : ∀ i < n, ReadyAt s i → (inSlot s i).priority ≤ (inSlot s m).priority
  last : Behind s m → ∀ i < n, ReadyAt s i → (inSlot s i).priority = (inSlot s m).priority → i ≤ m
  first : ¬Behind s m → ∀ i < n, ReadyAt s i → (inSlot s i).priority = (inSlot s m).priority →
    m ≤ i ∧ ¬Behind s i

theorem Behind.mono {i j : Nat} (h : Behind s i) (le : i ≤ j) : Behind s j := by
  obtain ⟨there, k, found, lt⟩ := h
  exact ⟨there, k, found, Nat.lt_of_lt_of_le lt le⟩

theorem Picked.skip {n m : Nat} (h : Picked s n m)
    (lower : ReadyAt s n → (inSlot s n).priority < (inSlot s m).priority) : Picked s (n + 1) m := by
  have old : ∀ i < n + 1, ReadyAt s i → (inSlot s i).priority = (inSlot s m).priority → i < n := by
    intro i lt ready same
    refine Nat.lt_of_le_of_ne (Nat.le_of_lt_succ lt) ?_
    rintro rfl
    have less := lower ready
    omega
  refine ⟨Nat.lt_succ_of_lt h.lt, h.ready, fun i lt ready => ?_, fun behind i lt ready same => ?_,
    fun before i lt ready same => ?_⟩
  · rcases Nat.lt_succ_iff_lt_or_eq.mp lt with less | rfl
    · exact h.highest i less ready
    · exact Nat.le_of_lt (lower ready)
  · exact h.last behind i (old i lt ready same) ready same
  · exact h.first before i (old i lt ready same) ready same

theorem picked_new {n : Nat} (ready : ReadyAt s n)
    (higher : ∀ i < n, ReadyAt s i → (inSlot s i).priority < (inSlot s n).priority) : Picked s (n + 1) n := by
  have only : ∀ i < n + 1, ReadyAt s i → (inSlot s i).priority = (inSlot s n).priority → i = n := by
    intro i lt ready same
    rcases Nat.lt_succ_iff_lt_or_eq.mp lt with less | rfl
    · have lower := higher i less ready
      omega
    · rfl
  refine ⟨Nat.lt_succ_self n, ready, fun i lt ready => ?_, fun _ i lt ready same => ?_,
    fun before i lt ready same => ?_⟩
  · rcases Nat.lt_succ_iff_lt_or_eq.mp lt with less | rfl
    · exact Nat.le_of_lt (higher i less ready)
    · exact Nat.le_refl _
  · exact Nat.le_of_eq (only i lt ready same)
  · rw [only i lt ready same]
    exact ⟨Nat.le_refl n, before⟩

/-- The tie-breaker. -/
theorem Picked.tie {n m : Nat} (h : Picked s n m) (ready : ReadyAt s n)
    (same : (inSlot s n).priority = (inSlot s m).priority) :
    (Behind s n → Picked s (n + 1) n) ∧ (¬Behind s n → Picked s (n + 1) m) := by
  constructor
  · intro behind
    refine ⟨Nat.lt_succ_self n, ready, fun i lt ready => ?_, fun _ i lt _ _ => Nat.le_of_lt_succ lt,
      fun before => absurd behind before⟩
    rcases Nat.lt_succ_iff_lt_or_eq.mp lt with less | rfl
    · rw [same]
      exact h.highest i less ready
    · exact Nat.le_refl _
  · intro before
    have before' : ¬Behind s m := fun behind => before (behind.mono (Nat.le_of_lt h.lt))
    refine ⟨Nat.lt_succ_of_lt h.lt, h.ready, fun i lt ready => ?_, fun behind => absurd behind before',
      fun _ i lt ready equal => ?_⟩
    · rcases Nat.lt_succ_iff_lt_or_eq.mp lt with less | rfl
      · exact h.highest i less ready
      · exact Nat.le_of_eq same
    · rcases Nat.lt_succ_iff_lt_or_eq.mp lt with less | rfl
      · exact h.first before' i less ready equal
      · exact ⟨Nat.le_of_lt h.lt, before⟩

/-- The pair `next_process`, `highest_priority` after the slots below `n`. -/
def Searched (s : Processes) (n : Nat) (best : Nat × Nat) : Prop :=
  best.1 = 0 ∧ (∀ i < n, ¬ReadyAt s i) ∨
    ∃ m, best = (s.table m, (inSlot s m).priority) ∧ Picked s n m

theorem consider_searched {n : Nat} {best : Nat × Nat} (h : Searched s n best) (lt : n < MAX_PROCESSES) :
    Searched s (n + 1) (consider s best n) := by
  simp only [consider]
  split
  next ready =>
    have here : ReadyAt s n := ⟨⟨lt, ready.1⟩, ready.2⟩
    rcases h with ⟨null, none⟩ | ⟨m, rfl, picked⟩
    · rw [if_pos (Or.inl null)]
      exact Or.inr ⟨n, rfl, picked_new here fun i less ready => absurd ready (none i less)⟩
    · have taken : s.table m ≠ 0 := picked.ready.1.2
      have fold : s.pcb (s.table n) = inSlot s n := rfl
      simp only [fold]
      by_cases higher : (inSlot s m).priority < (inSlot s n).priority
      · rw [if_pos (Or.inr higher)]
        exact Or.inr ⟨n, rfl, picked_new here fun i less ready =>
          Nat.lt_of_le_of_lt (picked.highest i less ready) higher⟩
      · rw [if_neg (not_or.mpr ⟨taken, higher⟩)]
        by_cases same : (inSlot s n).priority = (inSlot s m).priority
        · obtain ⟨take, keep⟩ := picked.tie here same
          by_cases behind : Behind s n
          · obtain ⟨there, j, found, less⟩ := behind
            simp only [same, there, ne_eq, not_false_eq_true, and_self, if_true, found, if_pos less]
            exact Or.inr ⟨n, by rw [same], take ⟨there, j, found, less⟩⟩
          · refine Or.inr ⟨m, ?_, keep behind⟩
            split
            next ties =>
              split
              next j found => rw [if_neg fun less => behind ⟨ties.2, j, found, less⟩]
              next => rfl
            next => rfl
        · rw [if_neg fun h => same h.1]
          have lower : (inSlot s n).priority < (inSlot s m).priority := by omega
          exact Or.inr ⟨m, rfl, picked.skip fun _ => lower⟩
  next idle =>
    have not : ¬ReadyAt s n := fun ready => idle ⟨ready.1.2, ready.2⟩
    rcases h with ⟨null, none⟩ | ⟨m, rfl, picked⟩
    · refine Or.inl ⟨null, fun i less => ?_⟩
      rcases Nat.lt_succ_iff_lt_or_eq.mp less with old | rfl
      · exact none i old
      · exact not
    · exact Or.inr ⟨m, rfl, picked.skip fun ready => absurd ready not⟩

theorem search_picked (s : Processes) (n : Nat) (le : n ≤ MAX_PROCESSES) :
    Searched s n ((List.range n).foldl (consider s) (0, 0)) := by
  induction n with
  | zero => exact Or.inl ⟨rfl, fun i lt => absurd lt (Nat.not_lt_zero i)⟩
  | succ n ih =>
    rw [List.range_succ, List.foldl_append]
    exact consider_searched (ih (by omega)) le

end Scan

section Turns

variable {s t : Processes} {m : Nat}

theorem park_priority (s : Processes) (p : Nat) : ((park s).pcb p).priority = (s.pcb p).priority := by
  rw [park]
  split
  next =>
    by_cases here : p = s.current
    · rw [here]
      simp [Processes.setState]
    · rw [Processes.setState, setPcb_other s here]
  next => rfl

theorem runnable_iff (i : Nat) : Runnable s i ↔ ReadyAt (park s) i := by
  have same := park_sameSlots s
  rw [Runnable, ReadyAt, same.used, inSlot, inSlot, same.table]
  refine and_congr_right fun used => ?_
  rw [park]
  split
  next runs =>
    by_cases here : s.table i = s.current
    · rw [here, setState_self]
      simp [runs.2]
    · rw [setState_other s here]
      simp [here]
  next stopped =>
    constructor
    · rintro (ready | ⟨here, running⟩)
      · exact ready
      · exact absurd ⟨here ▸ used.2, here ▸ running⟩ stopped
    · exact Or.inl

theorem mem_peers {i : Nat} : i ∈ peers s ↔ ReadyAt (park s) i ∧
    ∀ j, ReadyAt (park s) j → (inSlot (park s) j).priority ≤ (inSlot (park s) i).priority := by
  have same : ∀ j, (inSlot (park s) j).priority = (inSlot s j).priority := by
    intro j
    rw [inSlot, inSlot, (park_sameSlots s).table, park_priority]
  simp only [peers, Finset.mem_filter, Finset.mem_range, runnable_iff, same]
  constructor
  · rintro ⟨-, ready, most⟩
    exact ⟨ready, fun j other => most j other.1.1 other⟩
  · rintro ⟨ready, most⟩
    exact ⟨ready.1.1, ready, fun j _ other => most j other⟩

/-- What a call of `process_schedule` leaves when it goes for the process in slot `m`. -/
structure Turned (s t : Processes) (m : Nat) : Prop where
  table : t.table = s.table
  count : t.count = s.count
  current : t.current = s.table m
  pcb : t.pcb = ((park s).setState (s.table m) .running).pcb
  rest : ∀ p, t.rest p = s.rest p ∨ t.rest p = .back
  left : s.current ≠ s.table m → t.rest s.current = .back

theorem nextProcess_picked (some : ∃ i, ReadyAt s i) :
    ∃ m, nextProcess s = s.table m ∧ Picked s MAX_PROCESSES m := by
  obtain ⟨i, ready⟩ := some
  rcases search_picked s MAX_PROCESSES (Nat.le_refl _) with ⟨-, none⟩ | ⟨m, best, picked⟩
  · exact absurd ready (none i ready.1.1)
  · refine ⟨m, ?_, picked⟩
    simp only [nextProcess]
    rw [best, if_neg picked.ready.1.2]

theorem processSchedule_turned (h : Schedulable s) (some : ∃ i, ReadyAt (park s) i) :
    ∃ m, Picked (park s) MAX_PROCESSES m ∧ Turned s (processSchedule s) m := by
  have same := park_sameSlots s
  obtain ⟨m, next, picked⟩ := nextProcess_picked some
  rw [same.table] at next
  refine ⟨m, picked, ?_⟩
  rw [processSchedule, scheduleThen, if_neg h.count]
  simp only [next]
  split
  next away =>
    have ready : (inSlot s m).state = .ready := by
      have now := picked.ready.2
      rw [inSlot, same.table] at now
      rcases park_state s (s.table m) with kept | ⟨clash, -⟩
      · rw [inSlot, ← kept, now]
      · rw [park_current] at away
        exact absurd clash away
    have back : (handOver (park s) .back (s.table m)).rest
        (handOver (park s) .back (s.table m)).current = .back := by
      change Function.update (park s).rest (park s).current .back (s.table m) = .back
      rw [Function.update_of_ne away, park_rest, h.rest m (same.used.mp picked.ready.1) ready]
    rw [processSwitch, back, goOn]
    have rests : ∀ p, Function.update (Function.update (park s).rest s.current .back) (s.table m) .back p =
        if p = s.table m ∨ p = s.current then .back else s.rest p := by
      intro p
      rw [park_rest, Function.update_apply, Function.update_apply, ite_or]
    rw [← park_current s] at rests
    refine ⟨same.table, same.count, rfl, rfl, fun p => ?_, fun _ => ?_⟩
    · refine (ite_eq_or_eq (p = s.table m ∨ p = (park s).current) Rest.back (s.rest p)).symm.imp ?_ ?_
      · exact (rests p).trans
      · exact (rests p).trans
    · refine (rests s.current).trans (if_pos (Or.inr ?_))
      rw [park_current]
  next stay =>
    have stay' : s.table m = (park s).current := not_not.mp stay
    refine ⟨same.table, same.count, stay'.symm, ?_, fun p => Or.inl ?_, fun away => absurd ?_ away⟩
    · rw [stay']
      rfl
    · exact congrFun (park_rest s) p
    · rw [stay', park_current]

theorem Turned.parked (h : Turned s t m) (ready : ReadyAt (park s) m) : (park t).pcb = (park s).pcb := by
  have now : ((park s).pcb (s.table m)).state = .ready := by
    rw [← ready.2, inSlot, (park_sameSlots s).table]
  have there : s.table m ≠ 0 := by
    rw [← (park_sameSlots s).table]
    exact ready.1.2
  have runs : t.current ≠ 0 ∧ (t.pcb t.current).state = .running := by
    rw [h.current, h.pcb]
    exact ⟨there, setState_self ..⟩
  rw [park, if_pos runs]
  funext p
  by_cases here : p = s.table m
  · subst here
    simp only [Processes.setState, Processes.setPcb, h.current, h.pcb, Function.update_self, ← now]
  · rw [setState_other _ (by rw [h.current]; exact here), h.pcb, setState_other _ here]

theorem Turned.readyAt (h : Turned s t m) (ready : ReadyAt (park s) m) (i : Nat) :
    ReadyAt (park t) i ↔ ReadyAt (park s) i := by
  have table : (park t).table = (park s).table := by
    rw [(park_sameSlots t).table, (park_sameSlots s).table, h.table]
  rw [ReadyAt, ReadyAt, Used, Used, inSlot, inSlot, table, h.parked ready]

theorem Turned.peers (h : Turned s t m) (ready : ReadyAt (park s) m) : peers t = peers s := by
  have table : (park t).table = (park s).table := by
    rw [(park_sameSlots t).table, (park_sameSlots s).table, h.table]
  ext i
  simp only [mem_peers, h.readyAt ready, inSlot, table, h.parked ready]

theorem Turned.schedulable (h : Turned s t m) (ok : Schedulable s) : Schedulable t := by
  have used : ∀ i, Used t i ↔ Used s i := by
    intro i
    rw [Used, Used, h.table]
  refine ⟨by rw [h.count]; exact ok.count, fun i j usedi usedj => ?_, fun i usedi now => ?_⟩
  · rw [h.table]
    exact ok.once i j ((used i).mp usedi) ((used j).mp usedj)
  · rw [inSlot, h.table, h.pcb] at now
    rw [h.table]
    have away : s.table i ≠ s.table m := by
      intro same
      rw [same, setState_self] at now
      exact absurd now (by decide)
    rw [setState_other _ away] at now
    rcases park_state s (s.table i) with same | ⟨here, -⟩
    · rcases h.rest (s.table i) with kept | back
      · rw [kept]
        exact ok.rest i ((used i).mp usedi) (by rw [inSlot, ← same, now])
      · exact back
    · rw [here] at away ⊢
      exact h.left away

theorem Turned.behind (h : Turned s t m) (ok : Schedulable s) (used : Used s m) (i : Nat) :
    Behind (park t) i ↔ m < i := by
  have table : (park t).table = s.table := by
    rw [(park_sameSlots t).table, h.table]
  have found : (park t).findSlot (fun q => decide (q = (park t).current)) = some m := by
    rw [Processes.findSlot, table, park_current, h.current]
    cases search : Scan.firstFrom (fun i => decide (s.table i = s.table m)) MAX_PROCESSES 0 with
    | none =>
      have miss := Scan.firstFrom_none.mp search m (Nat.zero_le m) (by rw [Nat.zero_add]; exact used.1)
      exact absurd rfl (of_decide_eq_false miss)
    | some j =>
      obtain ⟨-, lt, hit, -⟩ := Scan.firstFrom_some search
      have same := of_decide_eq_true hit
      rw [ok.once j m ⟨by omega, same ▸ used.2⟩ used same]
  rw [Behind, found, park_current, h.current]
  constructor
  · rintro ⟨-, j, same, less⟩
    rw [Option.some.inj same]
    exact less
  · exact fun less => ⟨used.2, m, rfl, less⟩

theorem Picked.peer (h : Picked (park s) MAX_PROCESSES m) : m ∈ peers s ∧
    (Behind (park s) m → ∀ i ∈ peers s, i ≤ m) ∧
    (¬Behind (park s) m → ∀ i ∈ peers s, m ≤ i ∧ ¬Behind (park s) i) := by
  have most : m ∈ peers s := mem_peers.mpr ⟨h.ready, fun j ready => h.highest j ready.1.1 ready⟩
  have level : ∀ i ∈ peers s, ReadyAt (park s) i ∧
      (inSlot (park s) i).priority = (inSlot (park s) m).priority := by
    intro i hi
    obtain ⟨ready, top⟩ := mem_peers.mp hi
    exact ⟨ready, Nat.le_antisymm ((mem_peers.mp most).2 i ready) (top m h.ready)⟩
  refine ⟨most, fun behind i hi => ?_, fun before i hi => ?_⟩
  · obtain ⟨ready, same⟩ := level i hi
    exact h.last behind i ready.1.1 ready same
  · obtain ⟨ready, same⟩ := level i hi
    exact h.first before i ready.1.1 ready same

/-- A later state in which the process of slot `m` has its turn. -/
structure HasTurn (s t : Processes) (m : Nat) : Prop where
  ok : Schedulable t
  table : t.table = s.table
  samePeers : peers t = peers s
  peer : m ∈ peers s
  current : t.current = s.table m
  behind : ∀ i, Behind (park t) i ↔ m < i

theorem HasTurn.of_turned {s0 : Processes} (ok : Schedulable s) (table : s.table = s0.table)
    (same : peers s = peers s0) (picked : Picked (park s) MAX_PROCESSES m) (turned : Turned s t m) :
    HasTurn s0 t m := by
  have used := (park_sameSlots s).used.mp picked.ready.1
  refine ⟨turned.schedulable ok, turned.table.trans table, (turned.peers picked.ready).trans same, ?_, ?_,
    turned.behind ok used⟩
  · rw [← same]
    exact picked.peer.1
  · rw [turned.current, table]

theorem first_turn (ok : Schedulable s) (some : (peers s).Nonempty) :
    ∃ m, HasTurn s (processSchedule s) m ∧ ((∀ i ∈ peers s, i ≤ m) ∨ ∀ i ∈ peers s, m ≤ i) := by
  obtain ⟨i, hi⟩ := some
  obtain ⟨m, picked, turned⟩ := processSchedule_turned ok ⟨i, (mem_peers.mp hi).1⟩
  obtain ⟨-, last, first⟩ := picked.peer
  refine ⟨m, .of_turned ok rfl rfl picked turned, ?_⟩
  by_cases behind : Behind (park s) m
  · exact Or.inl (last behind)
  · exact Or.inr fun i hi => (first behind i hi).1

/-- From the last of the peers the turn goes to the first, and from any other to the last. -/
theorem HasTurn.next (h : HasTurn s t m) : ∃ m', HasTurn s (processSchedule t) m' ∧
    ((∀ i ∈ peers s, i ≤ m) → ∀ i ∈ peers s, m' ≤ i) ∧
    ((∃ i ∈ peers s, m < i) → ∀ i ∈ peers s, i ≤ m') := by
  obtain ⟨m', picked, turned⟩ := processSchedule_turned h.ok
    ⟨m, (mem_peers.mp (h.samePeers ▸ h.peer)).1⟩
  obtain ⟨peer, last, first⟩ := picked.peer
  rw [h.samePeers] at peer last first
  simp only [h.behind] at last first
  refine ⟨m', .of_turned h.ok h.table h.samePeers picked turned, fun most i hi => ?_, fun ⟨i, hi, more⟩ => last ?_⟩
  · exact (first (Nat.not_lt.mpr (most m' peer)) i hi).1
  · by_contra before
    exact (first before i hi).2 more

theorem turn_at_end (ok : Schedulable s) (some : (peers s).Nonempty) (n : Nat) :
    ∃ m, HasTurn s (processSchedule^[n + 1] s) m ∧ ((∀ i ∈ peers s, i ≤ m) ∨ ∀ i ∈ peers s, m ≤ i) := by
  induction n with
  | zero => exact first_turn ok some
  | succ n ih =>
    obtain ⟨m, turn, -⟩ := ih
    obtain ⟨m', turn', first, last⟩ := turn.next
    rw [Function.iterate_succ_apply']
    refine ⟨m', turn', ?_⟩
    by_cases most : ∀ i ∈ peers s, i ≤ m
    · exact Or.inr (first most)
    · simp only [not_forall, Nat.not_le] at most
      obtain ⟨i, hi, more⟩ := most
      exact Or.inl (last ⟨i, hi, more⟩)

theorem peers_used {i : Nat} (hi : i ∈ peers s) : Used s i :=
  (park_sameSlots s).used.mp (mem_peers.mp hi).1.1

theorem not_roundRobin (ok : Schedulable s) (many : 2 < (peers s).card) : ¬RoundRobin s := by
  have some : (peers s).Nonempty := Finset.card_pos.mp (by omega)
  have rest : 0 < (((peers s).erase ((peers s).min' some)).erase ((peers s).max' some)).card := by
    have one := Finset.pred_card_le_card_erase (s := peers s) (a := (peers s).min' some)
    have two := Finset.pred_card_le_card_erase (s := (peers s).erase ((peers s).min' some))
      (a := (peers s).max' some)
    omega
  obtain ⟨c, hc⟩ := Finset.card_pos.mp rest
  rw [Finset.mem_erase, Finset.mem_erase] at hc
  obtain ⟨notLast, notFirst, peer⟩ := hc
  intro fair
  obtain ⟨n, ⟨-, turn⟩, -⟩ := fair c peer
  obtain ⟨m, now, ends⟩ := turn_at_end ok some n
  have same : c = m := ok.once c m (peers_used peer) (peers_used now.peer) (by rw [← turn, now.current])
  subst same
  rcases ends with last | first
  · exact notLast (Nat.le_antisymm (Finset.le_max' _ _ peer) (last _ (Finset.max'_mem _ some)))
  · exact notFirst (Nat.le_antisymm (first _ (Finset.min'_mem _ some)) (Finset.min'_le _ _ peer))

theorem HasTurn.next_ne (h : HasTurn s t m) (two : (peers s).card = 2) :
    ∃ m', HasTurn s (processSchedule t) m' ∧ m' ≠ m := by
  obtain ⟨m', turn, first, last⟩ := h.next
  refine ⟨m', turn, ?_⟩
  rintro rfl
  obtain ⟨c, only⟩ : ∃ c, (peers s).erase m' = {c} := by
    rw [← Finset.card_eq_one, Finset.card_erase_of_mem h.peer, two]
  have peer : c ≠ m' ∧ c ∈ peers s := by
    rw [← Finset.mem_erase, only]
    exact Finset.mem_singleton_self c
  by_cases more : m' < c
  · exact absurd (last ⟨c, peer.2, more⟩ c peer.2) (Nat.not_le.mpr more)
  · have most : ∀ i ∈ peers s, i ≤ m' := by
      intro i hi
      by_cases here : i = m'
      · exact Nat.le_of_eq here
      · have there := Finset.mem_erase.mpr ⟨here, hi⟩
        rw [only, Finset.mem_singleton] at there
        omega
    have least := first most c peer.2
    omega

theorem roundRobin_of_two (ok : Schedulable s) (some : (peers s).Nonempty) (few : (peers s).card ≤ 2) :
    RoundRobin s := by
  obtain ⟨m, turn, -⟩ := first_turn ok some
  have slot : ∀ {i j t}, i ∈ peers s → HasTurn s t j → (t.current = s.table i ↔ j = i) := by
    intro i j t hi turn
    rw [turn.current]
    exact ⟨ok.once j i (peers_used turn.peer) (peers_used hi), fun same => by rw [same]⟩
  intro i hi
  have pos := Finset.card_pos.mpr some
  rcases Nat.lt_or_eq_of_le few with one | two
  · have all : (peers s).card = 1 := by omega
    obtain ⟨c, only⟩ := Finset.card_eq_one.mp all
    have mine := turn.peer
    rw [only, Finset.mem_singleton] at hi mine
    refine ⟨0, ⟨by omega, ?_⟩, fun n ⟨lt, _⟩ => by omega⟩
    exact (slot (by rw [only, hi]; exact Finset.mem_singleton_self c) turn).mpr (mine.trans hi.symm)
  · obtain ⟨m', turn', other⟩ := turn.next_ne two
    have pair : ({m, m'} : Finset Nat) = peers s := by
      refine Finset.eq_of_subset_of_card_le ?_ ?_
      · rw [Finset.insert_subset_iff, Finset.singleton_subset_iff]
        exact ⟨turn.peer, turn'.peer⟩
      · rw [two, Finset.card_pair other.symm]
    have second : (processSchedule^[1 + 1] s).current = s.table i ↔ m' = i := slot hi turn'
    have initial : (processSchedule^[0 + 1] s).current = s.table i ↔ m = i := slot hi turn
    rw [two]
    have both := hi
    rw [← pair, Finset.mem_insert, Finset.mem_singleton] at both
    rcases both with rfl | rfl
    · refine ⟨0, ⟨by omega, initial.mpr rfl⟩, fun n ⟨lt, now⟩ => ?_⟩
      by_contra later
      obtain rfl : n = 1 := by omega
      exact other (second.mp now)
    · refine ⟨1, ⟨by omega, second.mpr rfl⟩, fun n ⟨lt, now⟩ => ?_⟩
      by_contra earlier
      obtain rfl : n = 0 := by omega
      exact other (initial.mp now).symm

end Turns

/-- The peers take turns exactly if there are at most two of them. -/
theorem round_robin_iff (s : Processes) (ok : Schedulable s) (some : (peers s).Nonempty) :
    RoundRobin s ↔ (peers s).card ≤ 2 := by
  constructor
  · intro fair
    by_contra many
    exact not_roundRobin ok (Nat.not_le.mp many) fair
  · exact roundRobin_of_two ok some

section Law

variable {s : Processes}

/-- The state of the process at `p` when control went from the current process to `next`. -/
def stateAfter (s : Processes) (next p : Nat) : State :=
  if p = next then .running
  else if p = s.current ∧ (s.pcb p).state = .running then .ready
  else (s.pcb p).state

/-- A runnable process of the highest priority has control, and nothing has changed but the
states of two processes and what goes with a switch. -/
structure ScheduleLaw (s t : Processes) : Prop where
  picked : ∃ m, Runnable s m ∧ t.current = s.table m ∧
    ∀ j, Runnable s j → (inSlot s j).priority ≤ (inSlot s m).priority
  only : t = { s with
    pcb := fun p => { s.pcb p with state := stateAfter s t.current p }
    current := t.current
    rest := t.rest
    esp0 := t.esp0
    directory := t.directory }

theorem States.current_ne_zero (states : States s) : s.current ≠ 0 := by
  obtain ⟨i, used, here⟩ := states.current
  rw [← here]
  exact used.2

theorem park_eq (there : s.current ≠ 0) : park s = { s with pcb := fun p => { s.pcb p with
    state := if p = s.current ∧ (s.pcb p).state = .running then .ready else (s.pcb p).state } } := by
  rw [park]
  split
  next runs =>
    rw [Processes.setState, Processes.setPcb]
    congr 1
    funext p
    by_cases here : p = s.current
    · rw [here, Function.update_self, if_pos ⟨rfl, runs.2⟩]
    · rw [Function.update_of_ne here, if_neg fun h => here h.1]
  next stopped =>
    have still : ∀ p, ¬(p = s.current ∧ (s.pcb p).state = .running) := by
      rintro p ⟨rfl, running⟩
      exact stopped ⟨there, running⟩
    simp only [still, if_false]

theorem park_setState (there : s.current ≠ 0) (next : Nat) : (park s).setState next .running =
    { s with pcb := fun p => { s.pcb p with state := stateAfter s next p } } := by
  rw [park_eq there, Processes.setState, Processes.setPcb]
  congr 1
  funext p
  by_cases here : p = next
  · rw [here, Function.update_self, stateAfter, if_pos rfl]
  · rw [Function.update_of_ne here, stateAfter, if_neg here]

theorem scheduleThen_pcb {rest : Rest} (seats : Seats s) (states : States s)
    (left : rest = .back ∨ (s.pcb s.current).state = .terminated) (p : Nat) :
    (scheduleThen s rest).pcb p = { s.pcb p with state := stateAfter s (nextProcess (park s)) p } := by
  have there := states.current_ne_zero
  rw [scheduleThen_eq seats states left]
  split
  next => exact congrFun (congrArg Processes.pcb (park_setState there (nextProcess (park s)))) p
  next stay =>
    rw [not_not.mp stay]
    exact congrFun (congrArg Processes.pcb (park_setState there s.current)) p

theorem processSchedule_only (seats : Seats s) (states : States s) : processSchedule s = { s with
    pcb := fun p => { s.pcb p with state := stateAfter s (processSchedule s).current p }
    current := (processSchedule s).current
    rest := (processSchedule s).rest
    esp0 := (processSchedule s).esp0
    directory := (processSchedule s).directory } := by
  have there := states.current_ne_zero
  rw [processSchedule, scheduleThen_eq seats states (Or.inl rfl)]
  split
  next =>
    generalize nextProcess (park s) = next
    have pcbs := congrArg Processes.pcb (park_setState there next)
    simp only [switched, handOver]
    rw [park_eq there] at pcbs ⊢
    congr 1
  next => rw [park_setState there]

/-- `process_schedule` takes a runnable process of the highest priority, lets it run, makes the
process that ran before ready, and changes nothing else. -/
theorem schedule_highest (s : Processes) (seats : Seats s) (states : States s) :
    ScheduleLaw s (processSchedule s) := by
  have same := park_sameSlots s
  refine ⟨?_, processSchedule_only seats states⟩
  obtain ⟨i, used, here, ready⟩ := park_next seats states
  obtain ⟨m, next, picked⟩ := nextProcess_picked ⟨i, used, by rw [inSlot, here, ready]⟩
  refine ⟨m, (runnable_iff m).mpr picked.ready, ?_, fun j runnable => ?_⟩
  · rw [processSchedule, scheduleThen_current seats states (Or.inl rfl), next, same.table]
  · have ready := (runnable_iff j).mp runnable
    have most := picked.highest j ready.1.1 ready
    rw [inSlot, inSlot, same.table, park_priority, park_priority] at most
    exact most

end Law

/-- The idle process in slot 0 and processes of priority 5 in the slots 1 to `n`, of which the
first one runs. -/
def equals (n : Nat) : Processes :=
  { powerOn with
    table := fun i => if i ≤ n then 0x1000 * (i + 1) else 0
    pcb := fun p => { powerOn.pcb p with
      pid := p / 0x1000 - 1
      priority := if p = 0x1000 then 0 else 5
      state := if p = 0x2000 then .running else .ready }
    count := n + 1
    nextPid := n + 1
    current := 0x2000
    idle := 0x1000 }

theorem equals_schedulable (n : Nat) : Schedulable (equals n) := by
  refine ⟨Int.ne_of_gt (Int.natCast_pos.mpr (Nat.succ_pos n)), fun i j usedi usedj same => ?_,
    fun _ _ _ => rfl⟩
  have low : ∀ {k}, Used (equals n) k → (equals n).table k = 0x1000 * (k + 1) := by
    intro k used
    exact if_pos (by_contra fun high => used.2 (if_neg high))
  rw [low usedi, low usedj] at same
  omega

theorem equals_seats : Seats (equals 2) := ⟨rfl, by decide, by decide⟩

theorem equals_states : States (equals 2) := by
  refine ⟨Or.inl rfl, ⟨1, by decide, rfl⟩, fun i _ other => ?_, fun _ _ _ => rfl⟩
  exact fun running => other (by_contra fun away => absurd ((if_neg away).symm.trans running) (by decide))

/-- The last one of two processes with the same priority. -/
theorem schedule_highest_two : ScheduleLaw (equals 2) (processSchedule (equals 2)) ∧
    (processSchedule (equals 2)).current = (equals 2).table 2 :=
  ⟨schedule_highest (equals 2) equals_seats equals_states, by decide⟩

theorem round_robin_iff_two : RoundRobin (equals 2) :=
  (round_robin_iff (equals 2) (equals_schedulable 2) ⟨1, by decide⟩).mpr (by decide)

/-- Of three processes with the same priority the second one does not get a turn. -/
theorem middle_peer_starves : peers (equals 3) = {1, 2, 3} ∧
    (processSchedule^[1] (equals 3)).current = (equals 3).table 3 ∧
    (processSchedule^[2] (equals 3)).current = (equals 3).table 1 ∧
    (processSchedule^[3] (equals 3)).current = (equals 3).table 3 ∧ ¬RoundRobin (equals 3) := by
  have all : peers (equals 3) = {1, 2, 3} := by decide
  refine ⟨all, by decide, by decide, by decide, not_roundRobin (equals_schedulable 3) ?_⟩
  rw [all]
  decide

end Wittche.Process
