import Coact.Admission
import Coact.Foundation.Transition
import Mathlib.Data.List.Perm.Basic

/-! Arrival spacing. Producers reserve, commit and roll back on one gate in any
order. The barrier is at or above every timestamp in flight or committed, so each
admitted arrival lies an interval beyond all of them. -/
namespace Coact
open Foundation

namespace ArrivalGate

/-- The timestamp a new arrival is measured against. -/
def barrier (gate : ArrivalGate) : Option Nat :=
  if gate.holds ≠ 0 then some gate.holdNs else if gate.ever then some gate.lastAdmitNs else none

/-- The arrivals that `try_reserve` admits under a nonzero interval. -/
def Admits (gate : ArrivalGate) (now minNs : Nat) : Prop :=
  (∀ b, gate.barrier = some b → b + minNs ≤ now) ∧ gate.holds ≠ kMaxHolds

variable {gate : ArrivalGate} {now : Nat}

section
variable (positive : 0 < minNs)
include positive

theorem too_soon_iff :
    (minNs ≠ 0 ∧ (gate.holds ≠ 0 ∨ gate.ever = true) ∧
      (now < (if gate.holds ≠ 0 then gate.holdNs else gate.lastAdmitNs) ∨
        now - (if gate.holds ≠ 0 then gate.holdNs else gate.lastAdmitNs) < minNs)) ↔
      ¬ ∀ b, gate.barrier = some b → b + minNs ≤ now := by
  unfold barrier
  by_cases held : gate.holds ≠ 0
  · simp [held]
    omega
  · cases gate.ever
    · simp [held]
    · simp [held]
      omega

theorem tryReserve_admitted (admits : gate.Admits now minNs) :
    gate.tryReserve now minNs = ({ gate with holdNs := now, holds := gate.holds + 1 }, true) := by
  rw [tryReserve, if_neg fun soon => (too_soon_iff positive).mp soon admits.1, if_neg admits.2]

theorem tryReserve_refused (refused : ¬ gate.Admits now minNs) :
    gate.tryReserve now minNs = (gate, false) := by
  by_cases inTime : ∀ b, gate.barrier = some b → b + minNs ≤ now
  · have full : gate.holds = kMaxHolds := Decidable.not_not.mp fun free => refused ⟨inTime, free⟩
    rw [tryReserve, if_neg fun soon => (too_soon_iff positive).mp soon inTime, if_pos full]
  · rw [tryReserve, if_pos ((too_soon_iff positive).mpr inTime)]

theorem tryReserve_iff : (gate.tryReserve now minNs).2 = true ↔ gate.Admits now minNs := by
  by_cases admits : gate.Admits now minNs
  · simp [tryReserve_admitted positive admits, admits]
  · simp [tryReserve_refused positive admits, admits]

end

end ArrivalGate

/-- One gate, the reservations its producers hold on it, and a log of the arrivals
committed so far. -/
structure Arrivals where
  gate : ArrivalGate
  inFlight : List Nat
  committed : List Nat

namespace Arrivals

/-- The critical sections of the producers; a reservation is named by its place. -/
inductive Label where
  | reserve (now : Nat)
  | commit (i : Nat)
  | rollback (i : Nat)

/-- Only reservations that are in flight are committed or rolled back. -/
inductive Fault where
  | noReservation

def initial : Arrivals := ⟨.initial, [], []⟩

def step (minNs : Nat) : Label → Arrivals → Except Fault Arrivals
  | .reserve now, s =>
    let (gate, admitted) := s.gate.tryReserve now minNs
    .ok { s with gate := gate, inFlight := if admitted then s.inFlight ++ [now] else s.inFlight }
  | .commit i, s =>
    match s.inFlight[i]? with
    | some now =>
      .ok ⟨s.gate.commit now, s.inFlight.eraseIdx i, s.committed ++ [now]⟩
    | none => .error .noReservation
  | .rollback i, s =>
    match s.inFlight[i]? with
    | some _ => .ok { s with gate := s.gate.rollback, inFlight := s.inFlight.eraseIdx i }
    | none => .error .noReservation

variable {minNs : Nat} {s t : Arrivals} {label : Label}

/-- Two timestamps at least the interval apart. -/
def Apart (minNs a b : Nat) : Prop := a + minNs ≤ b ∨ b + minNs ≤ a

theorem Apart.symm (apart : Apart minNs a b) : Apart minNs b a := Or.symm apart

/-- Timestamps that are in flight or committed. -/
def stamps (s : Arrivals) : List Nat := s.inFlight ++ s.committed

/-- The barrier is at or above every timestamp, and the timestamps are apart. -/
structure Spaced (minNs : Nat) (s : Arrivals) : Prop where
  holds : s.gate.holds = s.inFlight.length
  ever : s.gate.ever = true ↔ s.committed ≠ []
  unset : s.committed = [] → s.gate.lastAdmitNs = 0
  largest : s.committed ≠ [] → s.committed.max? = some s.gate.lastAdmitNs
  newest : s.gate.holds ≠ 0 → ∀ t ∈ s.stamps, t ≤ s.gate.holdNs
  apart : s.stamps.Pairwise (Apart minNs)

theorem Spaced.initial : Spaced minNs initial where
  holds := rfl
  ever := by simp [Arrivals.initial, ArrivalGate.initial]
  unset _ := rfl
  largest never := (never rfl).elim
  newest never := (never rfl).elim
  apart := .nil

variable {now : Nat}

section
variable (spaced : Spaced minNs s)
include spaced

theorem Spaced.committed_le (found : now ∈ s.committed) : now ≤ s.gate.lastAdmitNs :=
  (List.max?_eq_some_iff.mp (spaced.largest (List.ne_nil_of_mem found))).2 now found

theorem Spaced.barrier (found : now ∈ s.stamps) : ∃ b, s.gate.barrier = some b ∧ now ≤ b := by
  by_cases held : s.gate.holds ≠ 0
  · exact ⟨_, if_pos held, spaced.newest held now found⟩
  · have none : s.inFlight = [] := List.eq_nil_of_length_eq_zero
      (spaced.holds.symm.trans (Decidable.not_not.mp held))
    rw [stamps, none, List.nil_append] at found
    have ever := spaced.ever.mpr (List.ne_nil_of_mem found)
    exact ⟨_, (if_neg held).trans (if_pos ever), spaced.committed_le found⟩

theorem Spaced.beyond {t : Nat} (admits : s.gate.Admits now minNs)
    (found : t ∈ s.stamps) : t + minNs ≤ now := by
  obtain ⟨b, bars, below⟩ := spaced.barrier found
  exact Nat.le_trans (Nat.add_le_add_right below minNs) (admits.1 b bars)

theorem Spaced.barrier_landed (free : s.gate.holds = 0) : s.gate.barrier = s.committed.max? := by
  rw [ArrivalGate.barrier, if_neg (not_not_intro free)]
  by_cases none : s.committed = []
  · rw [if_neg fun ever => spaced.ever.mp ever none, none]
    rfl
  · rw [if_pos (spaced.ever.mpr none), spaced.largest none]

end

variable {i : Nat}

theorem erase_perm (found : s.inFlight[i]? = some now) :
    (s.inFlight.eraseIdx i ++ (s.committed ++ [now])).Perm s.stamps := by
  obtain ⟨inside, rfl⟩ := List.getElem?_eq_some_iff.mp found
  calc s.inFlight.eraseIdx i ++ (s.committed ++ [s.inFlight[i]])
      _ = s.inFlight.eraseIdx i ++ s.committed ++ [s.inFlight[i]] := (List.append_assoc ..).symm
      List.Perm _ (s.inFlight[i] :: (s.inFlight.eraseIdx i ++ s.committed)) :=
        List.perm_append_singleton ..
      List.Perm _ s.stamps := (List.getElem_cons_eraseIdx_perm inside).append_right s.committed

section
variable (spaced : Spaced minNs s)
include spaced

theorem holds_eraseIdx (found : s.inFlight[i]? = some now) :
    s.gate.holds - 1 = (s.inFlight.eraseIdx i).length := by
  obtain ⟨inside, -⟩ := List.getElem?_eq_some_iff.mp found
  rw [List.length_eraseIdx_of_lt inside, spaced.holds]

theorem Spaced.admitted (admits : s.gate.Admits now minNs) :
    Spaced minNs ⟨{ s.gate with holdNs := now, holds := s.gate.holds + 1 }, s.inFlight ++ [now],
      s.committed⟩ where
  holds := by simp [spaced.holds]
  ever := spaced.ever
  unset := spaced.unset
  largest := spaced.largest
  newest _ t found := by
    rcases List.mem_append.mp found with inFlight | committed
    · rcases List.mem_append.mp inFlight with earlier | new
      · exact Nat.le_of_add_right_le (spaced.beyond admits (List.mem_append_left _ earlier))
      · exact Nat.le_of_eq (List.mem_singleton.mp new)
    · exact Nat.le_of_add_right_le (spaced.beyond admits (List.mem_append_right _ committed))
  apart := by
    have order : (s.inFlight ++ [now] ++ s.committed).Perm (now :: s.stamps) := by
      rw [List.append_assoc]
      exact List.perm_middle
    refine (order.pairwise_iff Apart.symm).mpr (.cons (fun t found => ?_) spaced.apart)
    exact .inr (spaced.beyond admits found)

theorem Spaced.committed (found : s.inFlight[i]? = some now) :
    Spaced minNs ⟨s.gate.commit now, s.inFlight.eraseIdx i, s.committed ++ [now]⟩ where
  holds := (ArrivalGate.releaseHold_holds _).trans (holds_eraseIdx spaced found)
  ever := by simp [ArrivalGate.commit]
  unset never := by simp at never
  largest _ := by
    simp only [ArrivalGate.commit, ArrivalGate.releaseHold_lastAdmitNs]
    refine List.max?_eq_some_iff.mpr ⟨?_, fun t found => ?_⟩
    · rcases Nat.le_total now s.gate.lastAdmitNs with older | newer
      · rw [Nat.max_eq_right older]
        by_cases none : s.committed = []
        · rw [spaced.unset none, Nat.le_zero] at older
          rw [spaced.unset none, older]
          exact List.mem_append_right _ (List.mem_singleton_self 0)
        · exact List.mem_append_left _ (List.max?_eq_some_iff.mp (spaced.largest none)).1
      · rw [Nat.max_eq_left newer]
        exact List.mem_append_right _ (List.mem_singleton_self now)
    · rcases List.mem_append.mp found with earlier | new
      · exact Nat.le_trans (spaced.committed_le earlier) (Nat.le_max_right ..)
      · rw [List.mem_singleton.mp new]
        exact Nat.le_max_left ..
  newest held t mem := by
    rw [ArrivalGate.commit, ArrivalGate.releaseHold_holdNs held]
    refine spaced.newest ?_ t ((erase_perm found).mem_iff.mp mem)
    rw [ArrivalGate.commit, ArrivalGate.releaseHold_holds] at held
    exact fun zero => held (by rw [zero])
  apart := ((erase_perm found).pairwise_iff Apart.symm).mpr spaced.apart

theorem Spaced.rolledBack (found : s.inFlight[i]? = some now) :
    Spaced minNs { s with gate := s.gate.rollback, inFlight := s.inFlight.eraseIdx i } := by
  have fewer : List.Sublist (s.inFlight.eraseIdx i ++ s.committed) s.stamps :=
    (List.eraseIdx_sublist ..).append_right s.committed
  exact {
    holds := (ArrivalGate.releaseHold_holds _).trans (holds_eraseIdx spaced found)
    ever := by simpa [ArrivalGate.rollback] using spaced.ever
    unset := by simpa [ArrivalGate.rollback] using spaced.unset
    largest := by simpa [ArrivalGate.rollback] using spaced.largest
    newest := fun held t mem => by
      rw [ArrivalGate.rollback, ArrivalGate.releaseHold_holdNs held]
      refine spaced.newest ?_ t (fewer.subset mem)
      rw [ArrivalGate.rollback, ArrivalGate.releaseHold_holds] at held
      exact fun zero => held (by rw [zero])
    apart := spaced.apart.sublist fewer }

theorem Spaced.step (positive : 0 < minNs) (ran : step minNs label s = .ok t) :
    Spaced minNs t ∧ s.gate.lastAdmitNs ≤ t.gate.lastAdmitNs := by
  cases label with
  | reserve now =>
    by_cases admits : s.gate.Admits now minNs
    · rw [Arrivals.step, ArrivalGate.tryReserve_admitted positive admits] at ran
      cases ran
      exact ⟨spaced.admitted admits, le_rfl⟩
    · rw [Arrivals.step, ArrivalGate.tryReserve_refused positive admits] at ran
      cases ran
      exact ⟨spaced, le_rfl⟩
  | commit =>
    simp only [Arrivals.step] at ran
    split at ran <;> cases ran
    refine ⟨spaced.committed ‹_›, ?_⟩
    rw [ArrivalGate.commit, ArrivalGate.releaseHold_lastAdmitNs]
    exact Nat.le_max_right ..
  | rollback =>
    simp only [Arrivals.step] at ran
    split at ran <;> cases ran
    refine ⟨spaced.rolledBack ‹_›, ?_⟩
    rw [ArrivalGate.rollback, ArrivalGate.releaseHold_lastAdmitNs]

end

theorem spaced_of_reaches (positive : 0 < minNs) (run : Reaches (step minNs) Always initial s) :
    Spaced minNs s :=
  run.invariant .initial fun _ _ _ spaced _ ran => (spaced.step positive ran).1

/-- At every moment of a gate: committed arrivals are an interval apart, each
reservation in flight can be committed next, no step moves the window back, and with
nothing in flight the next arrival is measured against the latest committed one. -/
theorem arrival_spacing (minNs : Nat) (positive : 0 < minNs) (s : Arrivals)
    (run : Reaches (step minNs) Always initial s) :
    s.committed.Pairwise (Apart minNs) ∧
    (∀ i < s.inFlight.length, ∃ t, step minNs (.commit i) s = .ok t) ∧
    (∀ label t, step minNs label s = .ok t → s.gate.lastAdmitNs ≤ t.gate.lastAdmitNs) ∧
    (s.inFlight = [] → ∀ now, (s.gate.tryReserve now minNs).2 = true ↔
      s.committed = [] ∨ ∃ largest, s.committed.max? = some largest ∧ largest + minNs ≤ now) := by
  have spaced := spaced_of_reaches positive run
  refine ⟨?_, ?_, ?_, ?_⟩
  · exact spaced.apart.sublist (List.sublist_append_right ..)
  · intro i inside
    exact ⟨_, by simp only [step, List.getElem?_eq_getElem inside]; rfl⟩
  · exact fun label t ran => (spaced.step positive ran).2
  · intro landed now
    have free : s.gate.holds = 0 := by rw [spaced.holds, landed]; rfl
    have unsaturated : s.gate.holds ≠ ArrivalGate.kMaxHolds := by rw [free]; decide
    rw [ArrivalGate.tryReserve_iff positive, ArrivalGate.Admits, and_iff_left unsaturated,
      spaced.barrier_landed free]
    by_cases none : s.committed = []
    · simp [none]
    · simp [none, spaced.largest none]

/-- Two overlapping reservations committed newest first. -/
def overlapping : List Label := [.reserve 100, .reserve 150, .reserve 170, .commit 1, .commit 0]

theorem arrival_spacing_overlapping :
    let s := outcome (step 50) overlapping initial
    s.committed = [150, 100] ∧
    (s.committed.Pairwise (Apart 50) ∧
    (∀ i < s.inFlight.length, ∃ t, step 50 (.commit i) s = .ok t) ∧
    (∀ label t, step 50 label s = .ok t → s.gate.lastAdmitNs ≤ t.gate.lastAdmitNs) ∧
    (s.inFlight = [] → ∀ now, (s.gate.tryReserve now 50).2 = true ↔
      s.committed = [] ∨ ∃ largest, s.committed.max? = some largest ∧ largest + 50 ≤ now)) :=
  ⟨by decide, arrival_spacing 50 (by decide) _ (reaches_outcome (by decide))⟩

end Arrivals

end Coact
