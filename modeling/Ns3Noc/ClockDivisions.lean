import Mathlib
import Ns3Noc.PartialRuns
import Ns3Noc.MeteredNetwork

/-!
# Divisions on the flit path

`ProcessBufferedPackets` has a branch of its own for a clock of zero. Routers and channels compute the
clock number by an integer division all the same, and so no flit can be handled in a network whose
clock is shorter than a picosecond.
-/
namespace Ns3Noc
open PartialRuns

/-- The call does not divide by zero. -/
def Undivided {α : Type} (x : Except Stop α) : Prop := x ≠ .error .divisionByZero

section

variable {α β : Type}

theorem undivided_ok (a : α) : Undivided (.ok a) := by
  intro h
  cases h

theorem undivided_assertion : Undivided (.error .assertion : Except Stop α) := by
  intro h
  cases h

theorem Undivided.bind {x : Except Stop α} (hx : Undivided x) {f : α → Except Stop β}
    (hf : ∀ a, Undivided (f a)) : Undivided (x >>= f) := by
  cases x with
  | error stop =>
    cases stop with
    | divisionByZero => exact absurd rfl hx
    | assertion => exact undivided_assertion
  | ok a => exact hf a

theorem undivided_divide {q : ℚ} (hq : q ≠ 0) : Undivided (divide q) := by
  rw [divide, if_neg hq]
  exact undivided_ok ()

theorem undivided_require (x : Option α) : Undivided (require x) := by
  cases x with
  | none => exact undivided_assertion
  | some a => exact undivided_ok a

end

theorem allowed_of_forall {σ ι : Type} {step : σ → ι → Option σ} {ok : σ → ι → Prop}
    (h : ∀ s l, ok s l) (s : σ) (ls : List ι) : Allowed step ok s ls := by
  induction ls generalizing s with
  | nil => exact True.intro
  | cons l ls ih => exact ⟨h s l, fun s' _ => ih s'⟩

theorem NocRouterType.numberOfInputPorts_pos (router : NocRouterType) :
    0 < router.numberOfInputPorts := by
  cases router <;> decide

theorem globalClock_ne_zero {time : ℚ} (h : getPicoSeconds time ≠ 0) : time ≠ 0 := by
  rintro rfl
  exact h (by simp [getPicoSeconds])

namespace FlitClock

variable {γ : Type} {clock : FlitClock γ} (hclock : getPicoSeconds clock.globalClock ≠ 0)

include hclock

theorem undivided_clockNumber (now : ℕ) : Undivided (clock.clockNumber now) :=
  (undivided_divide (by exact_mod_cast hclock)).bind fun _ => undivided_ok _

theorem undivided_measureFlits {ports : ℕ} (hports : 0 < ports) (m : PowerMeter) (n : ℕ) :
    Undivided (clock.measureFlits ports m n) := by
  induction n with
  | zero => exact undivided_ok ()
  | succ n ih =>
    refine Undivided.bind ?_ fun _ => ih
    refine (undivided_divide (globalClock_ne_zero hclock)).bind fun _ => ?_
    refine (undivided_divide (by exact_mod_cast hports.ne')).bind fun _ => ?_
    split
    · exact undivided_ok ()
    · exact undivided_assertion

theorem undivided_accountFlit {ports : ℕ} (hports : 0 < ports) (perFlit now : ℕ) (m : PowerMeter) :
    Undivided (clock.accountFlit ports perFlit now m) := by
  refine (undivided_clockNumber hclock now).bind fun _ => ?_
  split
  · exact (undivided_measureFlits hclock hports m _).bind fun _ => undivided_ok _
  · exact undivided_ok _

/-- The average is only taken over a positive number of flits. -/
theorem undivided_query {ports : ℕ} (hports : 0 < ports) (perFlit now : ℕ) (m : PowerMeter) :
    Undivided (clock.query ports perFlit now m) := by
  refine (undivided_clockNumber hclock now).bind fun _ => ?_
  refine (undivided_measureFlits hclock hports m _).bind fun _ => ?_
  split
  · rename_i hpos
    exact (undivided_divide (by exact_mod_cast hpos.ne')).bind fun _ => undivided_ok _
  · exact undivided_ok _

omit hclock in
theorem speedup_ne_zero (packet : NocPacket) : (clock.speedup packet : ℚ) ≠ 0 := by
  have hpos := clock.one_le_dataPacketSpeedup
  rw [speedup]
  split
  · exact_mod_cast Nat.one_le_iff_ne_zero.mp hpos
  · exact one_ne_zero

end FlitClock

namespace MeteredNetwork

variable {δ γ σ : Type} [DecidableEq δ] [DecidableEq γ]
variable {clock : FlitClock γ} {net : NocNetwork δ γ} {protocol : SwitchingProtocol σ}
  {router : ℕ → NocRouterType}

/-- The devices never divide by zero, whatever the clock. -/
theorem undivided_bufferDivisions (hrate : ∀ c, 0 < clock.dataRate c) (t : NetworkState δ γ σ)
    (d : δ) (packet : Option QueuedPacket) :
    Undivided (bufferDivisions clock net protocol t d packet) := by
  have hdata : ∀ c, (clock.dataRate c : ℚ) ≠ 0 := fun c => by exact_mod_cast (hrate c).ne'
  rw [bufferDivisions]
  split
  · exact undivided_ok ()
  · refine (undivided_require _).bind fun c => (undivided_require _).bind fun r => ?_
    have hnext : ∀ packet : NocPacket, Undivided (if clock.globalClock = 0 then
        divide (clock.dataRate c)
        else do
          divide (clock.speedup packet)
          divide clock.globalClock) := by
      intro packet
      split
      · exact undivided_divide (hdata c)
      · rename_i hzero
        exact (undivided_divide (FlitClock.speedup_ne_zero packet)).bind fun _ =>
          undivided_divide hzero
    dsimp only
    split
    · refine (undivided_divide (hdata c)).bind fun _ => ?_
      exact (undivided_divide (FlitClock.speedup_ne_zero _)).bind fun _ => hnext _
    · exact hnext _

section

variable (hclock : getPicoSeconds clock.globalClock ≠ 0) (hrate : ∀ c, 0 < clock.dataRate c)

omit [DecidableEq δ] [DecidableEq γ] in
include hclock in
theorem undivided_manageFlit (s : MeteredNetwork δ γ σ) (node : ℕ) (origin : Option δ) :
    Undivided (s.manageFlit clock router node origin) :=
  (FlitClock.undivided_accountFlit hclock (router node).numberOfInputPorts_pos _ _ _).bind
    fun _ => undivided_ok _

include hclock hrate

theorem undivided_nodeSend (s : MeteredNetwork δ γ σ) (t : NetworkState δ γ σ) (source : δ)
    (packet : NocPacket) (destination : ℕ) (route : RouteReply δ) (origin : Option δ) :
    Undivided (s.nodeSend clock net protocol router t source packet destination route origin) := by
  rw [nodeSend]
  split
  · exact undivided_assertion
  · refine (undivided_manageFlit hclock s _ _).bind fun _ => ?_
    exact (undivided_bufferDivisions hrate _ _ _).bind fun _ => undivided_ok _

theorem undivided_act (s : MeteredNetwork δ γ σ) (l : MeteredStep δ γ) :
    Undivided (s.act clock net protocol router l) := by
  cases l with
  | injectPacket d new uid destination route =>
    rw [act, injectPacket]
    split
    · refine (undivided_nodeSend hclock hrate s _ _ _ _ _ _).bind fun _ => ?_
      exact (undivided_require _).bind fun _ => undivided_ok _
    · exact undivided_assertion
  | processBufferedPackets d =>
    refine (undivided_bufferDivisions hrate _ _ _).bind fun _ => ?_
    exact (undivided_require _).bind fun _ => undivided_ok _
  | transmitEnd n route =>
    refine (undivided_require _).bind fun e => (undivided_require _).bind fun r => ?_
    refine (undivided_require _).bind fun dest => ?_
    have hreceive : Undivided (s.receive clock net protocol router r.1 e.destNocNetDevice r.2.1 dest
        route) := by
      rw [receive]
      split
      · exact undivided_ok s
      · exact undivided_nodeSend hclock hrate s _ _ _ _ _ _
    refine hreceive.bind fun _ => (undivided_require _).bind fun _ => ?_
    exact (FlitClock.undivided_accountFlit hclock Nat.two_pos _ _ _).bind fun _ => undivided_ok _
  | routerPower node =>
    exact (FlitClock.undivided_query hclock (router node).numberOfInputPorts_pos _ _ _).bind
      fun _ => undivided_ok _
  | channelPower c =>
    exact (FlitClock.undivided_query hclock Nat.two_pos _ _ _).bind fun _ => undivided_ok _
  | elapse time =>
    rw [act]
    split
    · exact undivided_ok _
    · exact undivided_assertion

end

omit [DecidableEq δ] [DecidableEq γ] in
/-- A flit for another node divides by the clock. -/
theorem manageFlit_zero (hclock : getPicoSeconds clock.globalClock = 0) (s : MeteredNetwork δ γ σ)
    (node : ℕ) (origin : Option δ) :
    s.manageFlit clock router node origin = .error .divisionByZero := by
  simp [manageFlit, FlitClock.accountFlit, FlitClock.clockNumber, divide, hclock, bind,
    Except.bind]

omit [DecidableEq δ] [DecidableEq γ] in
theorem routerPower_zero (hclock : getPicoSeconds clock.globalClock = 0) (s : MeteredNetwork δ γ σ)
    (node : ℕ) : s.routerPower clock router node = .error .divisionByZero := by
  simp [routerPower, FlitClock.query, FlitClock.clockNumber, divide, hclock, bind, Except.bind]

end MeteredNetwork
end Ns3Noc
