import Mathlib.Data.Fintype.Pi
import Coact.Foundation.Transition
import Coact.Periph.BitField

/-! `PeriphRegCache` and `BypassGuard` (`reg_cache.hpp`). The two copies of the registers
agree outside of the guards up to the registers marked dirty. What the callers have written
is a register file of its own, in which every write takes effect at once; the cache keeps up
with it as long as no guard is opened or closed over a dirty register. -/
namespace Coact.Periph
open Foundation
open Function (update update_self update_of_ne)

def kPeriphRegCount : Nat := 8

abbrev RegIndex := Fin kPeriphRegCount
abbrev Registers := RegIndex → Word

/-- The cache with the two copies of its `PeriphState`. -/
structure PeriphRegCache where
  shadow : Registers
  hardware : Registers
  cacheOnly : Bool
  cacheBypass : Bool
  cacheDirty : Bool
  dirtyRegs : RegIndex → Bool
  bypassWrites : UInt32
  driftEvents : UInt32
  syncs : UInt32

namespace PeriphRegCache

/-- The write protocol of `write` and `write_field`: where a change of one register lands. -/
def land (c : PeriphRegCache) (reg : RegIndex) (change : Word → Word) : PeriphRegCache :=
  if c.cacheBypass then
    { c with
      hardware := update c.hardware reg (change (c.hardware reg))
      bypassWrites := c.bypassWrites + 1 }
  else if c.cacheOnly then
    { c with
      shadow := update c.shadow reg (change (c.shadow reg))
      cacheDirty := true
      dirtyRegs := update c.dirtyRegs reg true }
  else
    { c with
      hardware := update c.hardware reg (change (c.hardware reg))
      shadow := update c.shadow reg (change (c.shadow reg)) }

def write (c : PeriphRegCache) (reg : RegIndex) (val : Word) : PeriphRegCache :=
  c.land reg fun _ => val

def writeField (c : PeriphRegCache) (field : BitFieldView) (reg : RegIndex) (val : Word) :
    PeriphRegCache := c.land reg fun old => field.write old val

def readField (c : PeriphRegCache) (field : BitFieldView) (reg : RegIndex) : Word :=
  field.read (c.shadow reg)

def fullRepush (c : PeriphRegCache) : PeriphRegCache := { c with hardware := c.shadow }

def resyncFromHw (c : PeriphRegCache) : PeriphRegCache := { c with shadow := c.hardware }

def sync (c : PeriphRegCache) : PeriphRegCache × Bool :=
  if c.cacheOnly then (c, false)
  else
    ({ c with
      hardware := fun r => if c.dirtyRegs r then c.shadow r else c.hardware r
      dirtyRegs := fun _ => false
      cacheDirty := false
      syncs := c.syncs + 1 }, true)

/-- The registers whose copies differ are counted, one event each. -/
def audit (c : PeriphRegCache) : PeriphRegCache :=
  (List.finRange kPeriphRegCount).foldl (fun c r =>
    if c.shadow r ≠ c.hardware r then { c with driftEvents := c.driftEvents + 1 } else c) c

end PeriphRegCache

namespace BypassGuard

/-- The constructor. -/
def enter (c : PeriphRegCache) : PeriphRegCache := { c with cacheBypass := true }

/-- The destructor. -/
def leave (c : PeriphRegCache) : PeriphRegCache := { c with cacheBypass := false }.resyncFromHw

end BypassGuard

/-- A change of some bits of one register, and whether `cache_only` was set at its write. -/
structure Update where
  reg : RegIndex
  mask : Word
  bits : Word
  frozen : Bool
  deriving DecidableEq

namespace Update

def apply (u : Update) (old : Word) : Word := (old &&& ~~~u.mask) ||| (u.bits &&& u.mask)

def touches (u : Update) (reg : RegIndex) (b : Nat) : Bool := u.reg = reg && u.mask.getLsbD b

end Update

inductive Op where
  | write (reg : RegIndex) (val : Word)
  | writeField (field : BitFieldView) (reg : RegIndex) (val : Word)
  | fullRepush
  | sync
  | setCacheOnly (on : Bool)
  | audit
  | openGuard
  | closeGuard

inductive Illegal where
  | noGuard

/-- The cache, the number of guards in scope, and the updates so far, the newest first. -/
structure World where
  cache : PeriphRegCache
  guards : Nat
  log : List Update

def start (registers : Registers) : World where
  cache := ⟨registers, registers, false, false, false, fun _ => false, 0, 0, 0⟩
  guards := 0
  log := []

def step : Op → World → Except Illegal World
  | .write reg val, s => .ok { s with
      cache := s.cache.write reg val
      log := ⟨reg, BitVec.allOnes 32, val, s.cache.cacheOnly⟩ :: s.log }
  | .writeField field reg val, s => .ok { s with
      cache := s.cache.writeField field reg val
      log := ⟨reg, field.mask, val <<< field.offset, s.cache.cacheOnly⟩ :: s.log }
  | .fullRepush, s => .ok { s with cache := s.cache.fullRepush }
  | .sync, s => .ok { s with cache := s.cache.sync.1 }
  | .setCacheOnly on, s => .ok { s with cache := { s.cache with cacheOnly := on } }
  | .audit, s => .ok { s with cache := s.cache.audit }
  | .openGuard, s => .ok { s with cache := BypassGuard.enter s.cache, guards := s.guards + 1 }
  | .closeGuard, s =>
    if s.guards = 0 then .error .noGuard
    else .ok { s with cache := BypassGuard.leave s.cache, guards := s.guards - 1 }

/-- Both kinds of write are one update that lands. -/
def World.update (s : World) (u : Update) : World :=
  { s with cache := s.cache.land u.reg u.apply, log := u :: s.log }

/-- What one operation does to the copies and the flags. -/
inductive Effect (s : World) : Op → World → Prop where
  | landed {op : Op} (u : Update) : Effect s op (s.update u)
  | repushed : Effect s .fullRepush { s with cache := s.cache.fullRepush }
  | synced : Effect s .sync { s with cache := s.cache.sync.1 }
  | toggled (on : Bool) :
      Effect s (.setCacheOnly on) { s with cache := { s.cache with cacheOnly := on } }
  | audited (events : UInt32) :
      Effect s .audit { s with cache := { s.cache with driftEvents := events } }
  | opened : Effect s .openGuard
      { s with cache := BypassGuard.enter s.cache, guards := s.guards + 1 }
  | closed : Effect s .closeGuard
      { s with cache := BypassGuard.leave s.cache, guards := s.guards - 1 }

section
variable {op : Op}

theorem audit_events (c : PeriphRegCache) :
    ∃ events, c.audit = { c with driftEvents := events } := by
  unfold PeriphRegCache.audit
  induction List.finRange kPeriphRegCount generalizing c with
  | nil => exact ⟨c.driftEvents, rfl⟩
  | cons _ _ ih =>
    rw [List.foldl_cons]
    split
    · obtain ⟨events, counted⟩ := ih { c with driftEvents := c.driftEvents + 1 }
      exact ⟨events, counted⟩
    · exact ih c

theorem Update.apply_all (val old : Word) (reg : RegIndex) (frozen : Bool) :
    Update.apply ⟨reg, BitVec.allOnes 32, val, frozen⟩ old = val := by
  rw [Update.apply, BitVec.not_allOnes, BitVec.and_zero, BitVec.zero_or, BitVec.and_allOnes]

theorem step_effect (ran : step op s = .ok t) : Effect s op t := by
  cases op with
  | write reg val =>
    cases Except.ok.inj ran
    have landed : Effect s (.write reg val)
        (s.update ⟨reg, BitVec.allOnes 32, val, s.cache.cacheOnly⟩) := .landed _
    have whole : Update.apply ⟨reg, BitVec.allOnes 32, val, s.cache.cacheOnly⟩ = fun _ => val :=
      funext fun old => Update.apply_all val old reg _
    rw [World.update, whole] at landed
    exact landed
  | writeField field reg val =>
    cases Except.ok.inj ran
    exact .landed ⟨reg, field.mask, val <<< field.offset, s.cache.cacheOnly⟩
  | fullRepush =>
    cases Except.ok.inj ran
    exact .repushed
  | sync =>
    cases Except.ok.inj ran
    exact .synced
  | setCacheOnly on =>
    cases Except.ok.inj ran
    exact .toggled on
  | audit =>
    cases Except.ok.inj ran
    obtain ⟨events, counted⟩ := audit_events s.cache
    rw [counted]
    exact .audited events
  | openGuard =>
    cases Except.ok.inj ran
    exact .opened
  | closeGuard =>
    rw [step] at ran
    split at ran
    · cases ran
    · cases Except.ok.inj ran
      exact .closed

end

/-! The two copies. -/

/-- The bypass is on inside of guards only; without it the copies differ in dirty registers
only; and a dirty register shows in `cache_dirty`. -/
structure Tracked (s : World) : Prop where
  outside : s.guards = 0 → s.cache.cacheBypass = false
  drift : s.cache.cacheBypass = false → ∀ r, s.cache.shadow r ≠ s.cache.hardware r →
    s.cache.dirtyRegs r = true
  flagged : ∀ r, s.cache.dirtyRegs r = true → s.cache.cacheDirty = true

section
variable {op : Op} {c : PeriphRegCache}

theorem tracked_start (registers : Registers) : Tracked (start registers) where
  outside := fun _ => rfl
  drift := fun _ _ differ => absurd rfl differ
  flagged := fun _ dirty => absurd dirty Bool.false_ne_true

theorem update_ne {reg r : RegIndex} {change : Word → Word}
    (differ : update f reg (change (f reg)) r ≠ update g reg (change (g reg)) r) :
    f r ≠ g r := by
  intro same
  apply differ
  rcases eq_or_ne r reg with rfl | other
  · rw [update_self, update_self, same]
  · rw [update_of_ne other, update_of_ne other, same]

theorem Tracked.update (tracked : Tracked s) (u : Update) : Tracked (s.update u) := by
  unfold World.update PeriphRegCache.land
  split
  · rename_i bypass
    exact ⟨tracked.outside, fun off => absurd bypass (Bool.eq_false_iff.mp off), tracked.flagged⟩
  · split
    · refine ⟨tracked.outside, ?_, fun _ _ => rfl⟩
      intro off r differ
      rcases eq_or_ne r u.reg with rfl | other
      · exact update_self ..
      · dsimp only at differ ⊢
        rw [update_of_ne other] at differ ⊢
        exact tracked.drift off r differ
    · exact ⟨tracked.outside, fun off r differ => tracked.drift off r (update_ne differ),
        tracked.flagged⟩

theorem sync_succeeds (done : c.sync.2 = true) :
    c.cacheOnly = false ∧ ∀ r, c.sync.1.dirtyRegs r = false := by
  unfold PeriphRegCache.sync at done ⊢
  split at done
  · cases done
  · rename_i open_
    exact ⟨Bool.eq_false_iff.mpr open_, by simp [open_]⟩

theorem sync_bypass : c.sync.1.cacheBypass = c.cacheBypass := by
  unfold PeriphRegCache.sync
  split <;> rfl

theorem Tracked.sync (tracked : Tracked s) : Tracked { s with cache := s.cache.sync.1 } := by
  unfold PeriphRegCache.sync
  split
  · exact tracked
  · refine ⟨tracked.outside, ?_, fun r dirty => absurd dirty Bool.false_ne_true⟩
    intro off r differ
    dsimp only at differ
    split at differ
    · exact absurd rfl differ
    · rename_i clean
      exact absurd (tracked.drift off r differ) clean

theorem Tracked.step (tracked : Tracked s) (effect : Effect s op t) : Tracked t := by
  cases effect with
  | landed u => exact tracked.update u
  | repushed => exact ⟨tracked.outside, fun _ _ differ => absurd rfl differ, tracked.flagged⟩
  | synced => exact tracked.sync
  | toggled | audited => exact ⟨tracked.outside, tracked.drift, tracked.flagged⟩
  | opened => exact ⟨fun none => absurd none (Nat.succ_ne_zero _), fun off => absurd rfl
      (Bool.eq_false_iff.mp off), tracked.flagged⟩
  | closed => exact ⟨fun _ => rfl, fun _ _ differ => absurd rfl differ, tracked.flagged⟩

theorem tracked_of_reaches {registers : Registers}
    (run : Reaches Periph.step allowed (start registers) s) : Tracked s :=
  run.invariant (tracked_start registers)
    fun _ _ _ tracked _ ran => tracked.step (step_effect ran)

end

/-! The register file of the callers. -/

/-- Every update takes effect at once. -/
def file (registers : Registers) : List Update → Registers
  | [] => registers
  | u :: older =>
    update (file registers older) u.reg (u.apply (file registers older u.reg))

/-- The latest update of one bit. -/
def lastUpdate (log : List Update) (reg : RegIndex) (b : Nat) : Option Update :=
  log.find? fun u => u.touches reg b

/-- The copy that the next write goes to first. -/
def PeriphRegCache.current (c : PeriphRegCache) : Registers :=
  if c.cacheBypass then c.hardware else c.shadow

/-- No guard is opened or closed over a dirty register, and the shadow is not pushed while it
is bypassed. -/
def Settled : Op → World → Prop
  | .openGuard, s | .closeGuard, s => ∀ r, s.cache.dirtyRegs r = false
  | .fullRepush, s => s.cache.cacheBypass = false
  | .write _ _, _ | .writeField _ _ _, _ | .sync, _ | .setCacheOnly _, _ | .audit, _ => True

instance : ∀ (op : Op) (s : World), Decidable (Settled op s)
  | .openGuard, s | .closeGuard, s => inferInstanceAs (Decidable (∀ r, s.cache.dirtyRegs r = false))
  | .fullRepush, s => inferInstanceAs (Decidable (s.cache.cacheBypass = false))
  | .write _ _, _ | .writeField _ _ _, _ | .sync, _ | .setCacheOnly _, _ | .audit, _ => isTrue trivial

/-- The current copy is the callers' register file, and the bypassed shadow has nothing
pending. -/
structure Kept (registers : Registers) (s : World) : Prop where
  tracked : Tracked s
  quiet : s.cache.cacheBypass = true → ∀ r, s.cache.dirtyRegs r = false
  held : s.cache.current = file registers s.log

section
variable {s : World} {op : Op} {registers : Registers} {u : Update} {log : List Update}
  {reg : RegIndex} {b : Nat}

theorem getLsbD_apply (old : Word) (inside : b < 32) :
    (u.apply old).getLsbD b = if u.mask.getLsbD b then u.bits.getLsbD b else old.getLsbD b := by
  rw [Update.apply, BitVec.getLsbD_or, BitVec.getLsbD_and, BitVec.getLsbD_and, BitVec.getLsbD_not]
  cases u.mask.getLsbD b <;> simp [inside]

theorem file_bit (inside : b < 32) (last : lastUpdate log reg b = some u) :
    (file registers log reg).getLsbD b = u.bits.getLsbD b := by
  induction log with
  | nil => cases last
  | cons v older ih =>
    rw [lastUpdate, List.find?_cons] at last
    rw [file]
    split at last
    · rename_i touched
      cases last
      obtain ⟨same, masked⟩ := Bool.and_eq_true_iff.mp touched
      rw [← of_decide_eq_true same, update_self, getLsbD_apply _ inside, if_pos masked]
    · rename_i untouched
      have earlier := ih last
      rcases eq_or_ne reg v.reg with rfl | other
      · have unmasked : v.mask.getLsbD b = false := by
          simpa [Update.touches] using untouched
        rw [update_self, getLsbD_apply _ inside, unmasked, if_neg Bool.false_ne_true,
          earlier]
      · rw [update_of_ne other, earlier]

theorem kept_start (registers : Registers) : Kept registers (start registers) where
  tracked := tracked_start registers
  quiet := fun on => absurd on Bool.false_ne_true
  held := rfl

/-- With nothing dirty the hardware holds the file, whichever copy is current. -/
theorem Kept.hardware (kept : Kept registers s) (clean : ∀ r, s.cache.dirtyRegs r = false) :
    s.cache.hardware = file registers s.log := by
  have held := kept.held
  unfold PeriphRegCache.current at held
  split at held
  · exact held
  · rename_i off
    rw [← held]
    funext r
    by_contra differ
    have dirty := kept.tracked.drift (Bool.eq_false_iff.mpr off) r (Ne.symm differ)
    rw [clean r] at dirty
    exact Bool.false_ne_true dirty

theorem land_current (c : PeriphRegCache) (change : Word → Word) :
    (c.land reg change).current = update c.current reg (change (c.current reg)) := by
  unfold PeriphRegCache.land PeriphRegCache.current
  cases c.cacheBypass with
  | true => rfl
  | false => cases c.cacheOnly <;> rfl

theorem land_bypassed {c : PeriphRegCache} (change : Word → Word)
    (on : (c.land reg change).cacheBypass = true) :
    c.cacheBypass = true ∧ (c.land reg change).dirtyRegs = c.dirtyRegs := by
  unfold PeriphRegCache.land at on ⊢
  cases bypass : c.cacheBypass with
  | true => exact ⟨rfl, rfl⟩
  | false =>
    rw [bypass] at on
    cases only : c.cacheOnly <;> simp [only] at on

theorem Kept.update (kept : Kept registers s) (u : Update) : Kept registers (s.update u) := by
  refine ⟨kept.tracked.update u, ?_, ?_⟩
  · intro on r
    obtain ⟨before, same⟩ := land_bypassed _ on
    rw [World.update, same]
    exact kept.quiet before r
  · rw [World.update, land_current, kept.held]
    rfl

theorem Kept.sync (kept : Kept registers s) : Kept registers { s with cache := s.cache.sync.1 } := by
  refine ⟨kept.tracked.sync, ?_, ?_⟩
  · intro on r
    rw [sync_bypass] at on
    have quiet := kept.quiet on r
    unfold PeriphRegCache.sync
    split
    · exact quiet
    · rfl
  · rw [← kept.held]
    unfold PeriphRegCache.sync PeriphRegCache.current
    split
    · rfl
    · dsimp only
      split
      · rename_i on
        funext r
        rw [kept.quiet on r, if_neg Bool.false_ne_true]
      · rfl

theorem Kept.step (kept : Kept registers s) (settled : Settled op s) (effect : Effect s op t) :
    Kept registers t := by
  have tracked := kept.tracked.step effect
  cases effect with
  | landed u => exact kept.update u
  | synced => exact kept.sync
  | toggled | audited => exact ⟨tracked, kept.quiet, kept.held⟩
  | repushed =>
    have off : s.cache.cacheBypass = false := settled
    refine ⟨tracked, fun on => absurd (off.symm.trans on) Bool.false_ne_true, ?_⟩
    rw [← kept.held]
    simp [PeriphRegCache.current, PeriphRegCache.fullRepush, off]
  | opened => exact ⟨tracked, fun _ => settled, kept.hardware settled⟩
  | closed => exact ⟨tracked, fun on => absurd on Bool.false_ne_true, kept.hardware settled⟩

theorem kept_of_reaches (run : Reaches Periph.step Settled (start registers) s) :
    Kept registers s :=
  run.invariant (kept_start registers)
    fun _ _ _ kept settled ran => kept.step settled (step_effect ran)

end

def reg0 : RegIndex := ⟨0, by decide⟩

def nibbleField : BitFieldView := ⟨4, 4, Nat.succ_pos 3, by decide⟩

/-- A guarded write, then a frozen write and a write to a field of the same register. -/
def frameBoundary : List Op :=
  [.openGuard, .write reg0 3#32, .closeGuard, .setCacheOnly true, .write reg0 5#32,
    .setCacheOnly false, .writeField nibbleField reg0 9#32]

/-- Outside of all guards the copies differ in dirty registers only, a successful sync makes
them equal there, and a dirty register always shows in `cache_dirty`. -/
theorem copies_converge (registers : Registers) (s : World)
    (run : Reaches step Always (start registers) s) :
    (s.guards = 0 → ∀ r, s.cache.shadow r ≠ s.cache.hardware r → s.cache.dirtyRegs r = true) ∧
    (s.guards = 0 → s.cache.sync.2 = true → s.cache.sync.1.shadow = s.cache.sync.1.hardware) ∧
    ∀ r, s.cache.dirtyRegs r = true → s.cache.cacheDirty = true := by
  have tracked := tracked_of_reaches run
  refine ⟨fun none => tracked.drift (tracked.outside none), ?_, tracked.flagged⟩
  intro none done
  funext r
  by_contra differ
  have dirty := tracked.sync.drift (tracked.sync.outside none) r differ
  rw [(sync_succeeds done).2 r] at dirty
  exact Bool.false_ne_true dirty

theorem copies_converge_frame :
    (outcome step frameBoundary (start fun _ => 0#32)).cache.shadow ≠
      (outcome step frameBoundary (start fun _ => 0#32)).cache.hardware ∧
    (outcome step frameBoundary (start fun _ => 0#32)).cache.sync.1.shadow =
      (outcome step frameBoundary (start fun _ => 0#32)).cache.sync.1.hardware := by
  have run : Reaches step Always (start fun _ => 0#32)
      (outcome step frameBoundary (start fun _ => 0#32)) := reaches_outcome (by decide +kernel)
  exact ⟨by decide +kernel, (copies_converge _ _ run).2.1 (by decide +kernel) (by decide +kernel)⟩

/-- A bit whose latest value was written while `cache_only` was set has that value in the
hardware. -/
def Landed (s : World) : Prop :=
  ∀ reg b u, b < 32 → lastUpdate s.log reg b = some u → u.frozen = true →
    (s.cache.hardware reg).getLsbD b = u.bits.getLsbD b

/-- If no guard is opened or closed over a dirty register, a successful sync brings what was
written while `cache_only` was set to the hardware. -/
theorem frozen_writes_land (registers : Registers) (s : World)
    (run : Reaches step Settled (start registers) s) (done : s.cache.sync.2 = true) :
    Landed { s with cache := s.cache.sync.1 } := by
  intro reg b u inside last _
  have kept := (kept_of_reaches run).sync
  rw [kept.hardware (sync_succeeds done).2]
  exact file_bit inside last

theorem frozen_writes_land_frame :
    Landed { outcome step frameBoundary (start fun _ => 0#32) with
      cache := (outcome step frameBoundary (start fun _ => 0#32)).cache.sync.1 } ∧
    ((outcome step frameBoundary (start fun _ => 0#32)).cache.sync.1.hardware reg0) = 0x95#32 := by
  have run : Reaches step Settled (start fun _ => 0#32)
      (outcome step frameBoundary (start fun _ => 0#32)) := reaches_decided (by decide +kernel)
  exact ⟨frozen_writes_land _ _ run (by decide +kernel), by decide +kernel⟩

/-- Guards are opened only while `cache_only` is off. -/
def Unfrozen : Op → World → Prop
  | .openGuard, s => s.cache.cacheOnly = false
  | .closeGuard, _ | .fullRepush, _ | .write _ _, _ | .writeField _ _ _, _ | .sync, _
  | .setCacheOnly _, _ | .audit, _ => True

instance : ∀ (op : Op) (s : World), Decidable (Unfrozen op s)
  | .openGuard, s => inferInstanceAs (Decidable (s.cache.cacheOnly = false))
  | .closeGuard, _ | .fullRepush, _ | .write _ _, _ | .writeField _ _ _, _ | .sync, _
  | .setCacheOnly _, _ | .audit, _ => isTrue trivial

/-- A guard between the frozen write and the sync. -/
def guarded : List Op :=
  [.setCacheOnly true, .write reg0 5#32, .setCacheOnly false, .openGuard, .closeGuard]

/-- The end of the guard takes the old value back from the hardware, and the sync pushes it. -/
theorem guard_drops_frozen_write :
    Reaches step Unfrozen (start fun _ => 0#32) (outcome step guarded (start fun _ => 0#32)) ∧
    (outcome step guarded (start fun _ => 0#32)).cache.sync.2 = true ∧
    ¬ Landed { outcome step guarded (start fun _ => 0#32) with
      cache := (outcome step guarded (start fun _ => 0#32)).cache.sync.1 } := by
  refine ⟨reaches_decided (by decide +kernel), by decide +kernel, ?_⟩
  intro landed
  have kept := landed reg0 0 ⟨reg0, BitVec.allOnes 32, 5#32, true⟩ (by decide) (by decide +kernel) rfl
  revert kept
  decide +kernel

end Coact.Periph
