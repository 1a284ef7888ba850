import Coact.Breaker.Packed
import Coact.Foundation.Tally
import Coact.Foundation.Transition

/-! Concurrent calls of the inputs of `Breaker`. `update` loads the word, computes its successor
and exchanges it, and begins again with the word it finds when the exchange fails. A call takes
effect at its exchange; where the input leaves the word as it is there is none, and the call takes
effect at the load that has seen that word. -/
namespace Coact.Breaker
open Foundation

/-- A call before its load, with the word it has observed, or after its return. -/
inductive UpdatePc where
  | load
  | exchange (observed : Nat)
  | returned
  deriving DecidableEq, Repr

inductive Fault where
  | returned
  | noLevel

/-- One access of `update`: the word and the point after it. A weak exchange may fail although
the word is the one observed. -/
def access (cfg : Config) (i : Input) (word : Nat) (spurious : Bool) :
    UpdatePc → Except Fault (Nat × UpdatePc)
  | .load => .ok (word, .exchange word)
  | .exchange observed =>
    match update (apply cfg i) observed with
    | none => .error .noLevel
    | some desired =>
      if desired = observed then .ok (word, .returned)
      else if word = observed ∧ spurious = false then .ok (desired, .returned)
      else .ok (word, .exchange word)
  | .returned => .error .returned

structure Call where
  input : Input
  pc : UpdatePc

inductive CallEvent where
  | called (k : Nat)
  | returned (k : Nat)

/-- `log` is a ghost: the calls and the returns in their order. -/
structure World where
  word : Nat
  calls : List Call
  log : List CallEvent

inductive Label where
  | call (i : Input)
  | access (k : Nat) (spurious : Bool)

namespace World

def initial : World := ⟨pack Breaker.initial, [], []⟩

/-- The world after an access of call `k`. -/
def moved (w : World) (k : Nat) (i : Input) (out : Nat × UpdatePc) : World where
  word := out.1
  calls := w.calls.set k ⟨i, out.2⟩
  log := w.log ++ if out.2 = .returned then [.returned k] else []

def step (cfg : Config) : Label → World → Except Fault World
  | .call i, w => .ok
    { w with calls := w.calls ++ [⟨i, .load⟩], log := w.log ++ [.called w.calls.length] }
  | .access k spurious, w =>
    match w.calls[k]? with
    | none => .error .returned
    | some c => (Breaker.access cfg c.input w.word spurious c.pc).map (w.moved k c.input)

/-- The inputs of the calls in `order`. -/
def inputs (w : World) (order : List Nat) : List Input :=
  order.filterMap fun k => w.calls[k]?.map Call.input

end World

/-- The call has taken effect. -/
def Settled (cfg : Config) (i : Input) : UpdatePc → Prop
  | .load => False
  | .exchange observed => update (apply cfg i) observed = some observed
  | .returned => True

variable {cfg : Config} {w : World} {i : Input} {k word : Nat} {pc pc' : UpdatePc}

/-- What an access does for its call. -/
inductive Accesses (cfg : Config) (i : Input) (word : Nat) (pc : UpdatePc) : Nat × UpdatePc → Prop
  | onward (pc' : UpdatePc) (same : Settled cfg i pc ↔ Settled cfg i pc') :
      Accesses cfg i word pc (word, pc')
  | effect (word' : Nat) (pc' : UpdatePc) (before : ¬ Settled cfg i pc)
      (after : Settled cfg i pc') (updated : update (apply cfg i) word = some word') :
      Accesses cfg i word pc (word', pc')

theorem Accesses.observe (before : ¬ Settled cfg i pc) :
    Accesses cfg i word pc (word, .exchange word) := by
  by_cases unchanged : update (apply cfg i) word = some word
  · exact .effect word _ before unchanged unchanged
  · exact .onward _ (iff_of_false before unchanged)

theorem access_accesses {spurious : Bool} {out : Nat × UpdatePc}
    (done : access cfg i word spurious pc = .ok out) :
    Accesses cfg i word pc out ∧ (out.2 = .returned ∨ out.2 = .exchange word) := by
  cases pc with
  | load =>
    cases done
    exact ⟨.observe id, .inr rfl⟩
  | returned => cases done
  | exchange observed =>
    simp only [access] at done
    split at done
    · cases done
    · rename_i desired updated
      have settled : Settled cfg i (.exchange observed) ↔ desired = observed :=
        (iff_of_eq (congrArg (· = some observed) updated)).trans Option.some_inj
      split at done
      · rename_i unchanged
        cases done
        exact ⟨.onward _ (iff_of_true (settled.mpr unchanged) trivial), .inl rfl⟩
      · rename_i changed
        have before := mt settled.mp changed
        split at done
        · rename_i swapped
          cases done
          exact ⟨.effect desired _ before trivial (swapped.1 ▸ updated), .inl rfl⟩
        · cases done
          exact ⟨.observe before, .inr rfl⟩

/-- The calls have taken effect one after another in this order. -/
structure World.Linear (cfg : Config) (w : World) (order : List Nat) : Prop where
  nodup : order.Nodup
  word : w.word = pack (afterInputs cfg (w.inputs order))
  settled : ∀ k, k ∈ order ↔ ∃ c, w.calls[k]? = some c ∧ Settled cfg c.input c.pc
  observed : ∀ (k : Nat) i observed, w.calls[k]? = some ⟨i, .exchange observed⟩ →
    ∃ s, Fits s ∧ observed = pack s
  returned : ∀ k, .returned k ∈ w.log → k ∈ order
  before : ∀ j k, List.Sublist [.returned j, .called k] w.log → k ∈ order →
    List.Sublist [j, k] order

theorem pair_sublist_snoc {α : Type} {x y z : α} {l : List α} :
    List.Sublist [x, y] (l ++ [z]) ↔ List.Sublist [x, y] l ∨ x ∈ l ∧ y = z := by
  rw [List.sublist_append_iff]
  constructor
  · rintro ⟨l₁, l₂, whole, first, last⟩
    rcases List.sublist_singleton.mp last with rfl | rfl
    · rw [List.append_nil] at whole
      exact .inl (whole ▸ first)
    · have parts : [x] ++ [y] = l₁ ++ [z] := whole
      obtain ⟨rfl, same⟩ := List.append_inj' parts rfl
      exact .inr ⟨List.singleton_sublist.mp first, List.singleton_inj.mp same⟩
  · rintro (both | ⟨before, rfl⟩)
    · exact ⟨[x, y], [], rfl, both, List.nil_sublist _⟩
    · exact ⟨[x], [y], rfl, List.singleton_sublist.mpr before, List.Sublist.refl _⟩

namespace World
variable {order : List Nat}

theorem inputs_moved (found : w.calls[k]? = some c) (out : Nat × UpdatePc) (order : List Nat) :
    (w.moved k c.input out).inputs order = w.inputs order := by
  apply List.filterMap_congr
  intro j _
  rcases eq_or_ne j k with rfl | other
  · simp [moved, getElem?_set_found found, found]
  · simp [moved, List.getElem?_set_ne other.symm]

theorem Linear.initial : Linear cfg initial [] := by
  constructor <;> simp [World.initial, World.inputs, afterInputs, after]

section
variable (inv : w.Linear cfg order)
include inv

theorem Linear.inside (mem : k ∈ order) : k < w.calls.length := by
  obtain ⟨c, found, -⟩ := (inv.settled k).mp mem
  exact (List.getElem?_eq_some_iff.mp found).1

theorem Linear.call (i : Input) :
    Linear cfg { w with
      calls := w.calls ++ [⟨i, .load⟩]
      log := w.log ++ [.called w.calls.length] } order := by
  constructor
  case nodup => exact inv.nodup
  case word =>
    rw [inv.word]
    congr 2
    apply List.filterMap_congr
    intro j mem
    simp [List.getElem?_append_left (inv.inside mem)]
  case settled =>
    intro j
    rw [inv.settled j]
    constructor
    · rintro ⟨c, found, settled⟩
      exact ⟨c, getElem?_append_found _ found, settled⟩
    · rintro ⟨c, found, settled⟩
      rcases getElem?_of_append found with ⟨rfl, -⟩ | before
      · exact settled.elim
      · exact ⟨c, before, settled⟩
  case observed =>
    intro j i' observed found
    rcases getElem?_of_append found with ⟨never, -⟩ | before
    · cases never
    · exact inv.observed j i' observed before
  case returned =>
    intro j mem
    exact inv.returned j (by simpa using mem)
  case before =>
    intro j k both mem
    rcases pair_sublist_snoc.mp both with old | ⟨-, new⟩
    · exact inv.before j k old mem
    · cases new
      exact absurd (inv.inside mem) (Nat.lt_irrefl _)

theorem Linear.move (cooldown : cfg.kCooldownCycles ≤ kCooldownMask)
    (found : w.calls[k]? = some c) {out : Nat × UpdatePc}
    (place : out.2 = .returned ∨ out.2 = .exchange w.word) {more : List Nat}
    (fresh : more = [] ∨ more = [k] ∧ k ∉ order)
    (settles : k ∈ order ++ more ↔ Settled cfg c.input out.2)
    (word : out.1 = pack (afterInputs cfg (w.inputs (order ++ more)))) :
    (w.moved k c.input out).Linear cfg (order ++ more) := by
  have here : (w.calls.set k ⟨c.input, out.2⟩)[k]? = some ⟨c.input, out.2⟩ :=
    getElem?_set_found found _
  have elsewhere (j : Nat) (other : j ≠ k) : j ∈ order ++ more ↔ j ∈ order := by
    rcases fresh with rfl | ⟨rfl, -⟩ <;> simp [other]
  constructor
  case nodup =>
    rcases fresh with rfl | ⟨rfl, new⟩
    · simpa using inv.nodup
    · exact inv.nodup.append (List.nodup_singleton k) (by simpa using new)
  case word => rw [inputs_moved found, moved, word]
  case settled =>
    intro j
    rcases eq_or_ne j k with rfl | other
    · rw [settles, moved, here]
      simp
    · rw [elsewhere j other, inv.settled, moved, List.getElem?_set_ne other.symm]
  case observed =>
    intro j i observed there
    rcases getElem?_set_cases there with ⟨-, same⟩ | ⟨-, before⟩
    · obtain ⟨-, same⟩ := Call.mk.inj same
      rcases place with done | seen
      · cases same.trans done
      · cases same.trans seen
        exact ⟨_, fits_afterInputs cooldown _, inv.word⟩
    · exact inv.observed j i observed before
  case returned =>
    intro j mem
    rcases List.mem_append.mp mem with old | new
    · exact List.mem_append_left _ (inv.returned j old)
    · split at new
      · rename_i done
        cases List.mem_singleton.mp new
        exact settles.mpr (done ▸ trivial)
      · cases new
  case before =>
    intro j m both mem
    have earlier : List.Sublist [.returned j, .called m] w.log := by
      simp only [moved] at both
      split at both
      · rcases pair_sublist_snoc.mp both with old | ⟨-, never⟩
        · exact old
        · cases never
      · simpa using both
    rcases fresh with rfl | ⟨rfl, -⟩
    · rw [List.append_nil] at mem ⊢
      exact inv.before j m earlier mem
    · apply pair_sublist_snoc.mpr
      rcases List.mem_append.mp mem with old | new
      · exact .inl (inv.before j m earlier old)
      · exact .inr ⟨inv.returned j (earlier.subset (List.mem_cons_self ..)),
          List.mem_singleton.mp new⟩

theorem Linear.step (cooldown : cfg.kCooldownCycles ≤ kCooldownMask)
    (moved : World.step cfg label w = .ok w') :
    ∃ order', w'.Linear cfg order' := by
  cases label with
  | call i =>
    cases moved
    exact ⟨order, inv.call i⟩
  | access k spurious =>
    simp only [World.step] at moved
    split at moved
    · cases moved
    · rename_i c found
      obtain ⟨out, done, rfl⟩ := map_ok moved
      have settled : k ∈ order ↔ Settled cfg c.input c.pc := by
        rw [inv.settled, found]
        simp
      obtain ⟨accesses, place⟩ := access_accesses done
      cases accesses with
      | onward _ same =>
        refine ⟨order ++ [], inv.move cooldown found place (.inl rfl) ?_ ?_⟩
        · rw [List.append_nil, settled, same]
        · rw [List.append_nil, inv.word]
      | effect _ _ before after updated =>
        refine ⟨order ++ [k], inv.move cooldown found place (.inr ⟨rfl, mt settled.mp before⟩) ?_ ?_⟩
        · exact iff_of_true (List.mem_append_right _ (List.mem_singleton_self k)) after
        · rw [inv.word, update_pack (fits_afterInputs cooldown _)] at updated
          rw [inputs, List.filterMap_append]
          simp only [List.filterMap_cons, List.filterMap_nil, found, Option.map_some]
          exact (Option.some.inj updated).symm.trans (congrArg pack (afterInputs_snoc ..).symm)

end

theorem Linear.reached (cooldown : cfg.kCooldownCycles ≤ kCooldownMask)
    (run : Reaches (World.step cfg) Always .initial w) : ∃ order, w.Linear cfg order := by
  refine run.invariant (P := fun w => ∃ order, w.Linear cfg order) ⟨[], .initial⟩ ?_
  rintro label w w' ⟨order, inv⟩ - moved
  exact inv.step cooldown moved

theorem Linear.perm (inv : w.Linear cfg order) (quiet : ∀ c ∈ w.calls, c.pc = .returned) :
    order.Perm (List.range w.calls.length) := by
  rw [List.perm_ext_iff_of_nodup inv.nodup List.nodup_range]
  intro k
  rw [List.mem_range]
  constructor
  · exact inv.inside
  · intro inside
    have done := quiet _ (List.getElem_mem inside)
    exact (inv.settled k).mpr ⟨_, List.getElem?_eq_getElem inside, done ▸ trivial⟩

/-- The word a call has observed is the word of a state, so it has a level. -/
theorem Linear.has_level (inv : w.Linear cfg order) (k : Nat) (spurious : Bool) :
    World.step cfg (.access k spurious) w ≠ .error .noLevel := by
  simp only [World.step]
  intro failed
  split at failed
  · cases failed
  · rename_i c found
    obtain ⟨i, pc⟩ := c
    cases pc with
    | load => cases map_error failed
    | returned => cases map_error failed
    | exchange observed =>
      obtain ⟨s, fits, rfl⟩ := inv.observed k i observed found
      have failed := map_error failed
      simp only [access, update_pack fits] at failed
      split_ifs at failed

end World

/-- However the accesses of concurrent calls interleave, the word is the one that the calls which
have taken effect lead to one after another, each once, and a call that begins after another has
returned comes after it; every call that has returned has taken effect. -/
theorem breaker_updates_atomic (cooldown : cfg.kCooldownCycles ≤ 65535) :
    (∀ w, Reaches (World.step cfg) Always .initial w →
      (∃ order : List Nat,
        order.Nodup ∧ (∀ k ∈ order, k < w.calls.length) ∧
        w.word = pack (afterInputs cfg (w.inputs order)) ∧
        (∀ k, .returned k ∈ w.log → k ∈ order) ∧
        (∀ j k, List.Sublist [.returned j, .called k] w.log → k ∈ order →
          List.Sublist [j, k] order) ∧
        ((∀ c ∈ w.calls, c.pc = .returned) → order.Perm (List.range w.calls.length))) ∧
      ∀ k spurious, World.step cfg (.access k spurious) w ≠ .error .noLevel) ∧
    ∀ past, unpack (pack (afterInputs cfg past)) = some (afterInputs cfg past) := by
  refine ⟨?_, fun past => unpack_pack (fits_afterInputs cooldown past)⟩
  intro w run
  obtain ⟨order, inv⟩ := World.Linear.reached cooldown run
  exact ⟨⟨order, inv.nodup, fun _ => inv.inside, inv.word, inv.returned, inv.before, inv.perm⟩,
    inv.has_level⟩

/-- Two calls load the same word; the exchange of the first one fails once because of the second
call and once spuriously. -/
def contended : List Label :=
  [.call .directTimeout, .call .dispatcherRtcTimeout, .access 0 false, .access 1 false,
    .access 1 false, .access 0 false, .access 0 true, .access 0 false]

theorem breaker_updates_atomic_contended :
    let w := outcome (World.step DefaultConfig) contended .initial
    w.word = pack { initial with directTimeoutConsec := 1, rtcTimeoutConsec := 1 } ∧
      ∃ order : List Nat, order.Perm [0, 1] ∧
        w.word = pack (afterInputs DefaultConfig (w.inputs order)) := by
  refine ⟨by decide +kernel, ?_⟩
  have run : Reaches (World.step DefaultConfig) Always .initial
      (outcome (World.step DefaultConfig) contended .initial) :=
    reaches_outcome (by decide +kernel)
  have cooldown : DefaultConfig.kCooldownCycles ≤ 65535 := by decide
  obtain ⟨⟨order, -, -, word, -, -, perm⟩, -⟩ := (breaker_updates_atomic cooldown).1 _ run
  exact ⟨order, perm (by decide +kernel), word⟩

end Coact.Breaker
