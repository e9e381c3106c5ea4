import Newt.Wg.AtMostOnce

/-! # The loops around a pump

Both roles drive their pumps from loops: they feed the datagrams of a socket and drain the
queue, submit the packets of a stack, and let the timers run. Such a loop touches a pump
through its calls only, so what it does with the pump is a run of the pump, and what holds of
every run holds of the loop.
-/

namespace Newt.Wg

open Foundation Noise

/-- What passes between a loop, the socket, and the stack on one side and a pump on the
other. -/
inductive Traffic where
  | fed (datagram : Bytes)
  | delivered (packet : Bytes)
  | submitted (packet : Bytes)
  | sent (datagram : Bytes) (endpoint : SocketAddr)
  deriving DecidableEq, Repr

namespace Traffic

/-- The output of the pump that is passed on. -/
def shown? : Traffic → Option Inbound
  | .delivered packet => some (.packet packet)
  | .sent datagram _ => some (.network datagram)
  | _ => none

def submitted? : Traffic → Option Bytes
  | .submitted packet => some packet
  | _ => none

/-- The datagram that is fed to the pump. An empty one only drains its queue. -/
def fed? : Traffic → Option Bytes
  | .fed datagram => if datagram = [] then none else some datagram
  | _ => none

/-- An output of the pump is passed on to the stack or to the endpoint. -/
def ofInbound (endpoint : SocketAddr) : Inbound → Option Traffic
  | .packet packet => some (.delivered packet)
  | .network datagram => some (.sent datagram endpoint)
  | .nothing => none

end Traffic

/-- The datagram that a call feeds to the pump. -/
def Pump.Call.fed? : Pump.Call → Option Bytes
  | .decapsulate _ datagram => if datagram = [] then none else some datagram
  | _ => none

/-- The outputs that a loop passes on. -/
def Inbound.visible (outs : List Inbound) : List Inbound := outs.filter (· ≠ .nothing)

@[simp] theorem Inbound.visible_append (outs more : List Inbound) :
    visible (outs ++ more) = visible outs ++ visible more := List.filter_append ..

theorem Traffic.submitted_ofInbound (endpoint : SocketAddr) (outs : List Inbound) :
    (outs.filterMap (ofInbound endpoint)).filterMap submitted? = [] := by
  refine List.filterMap_eq_nil_iff.mpr fun note hnote => ?_
  obtain ⟨out, -, hout⟩ := List.mem_filterMap.mp hnote
  cases out <;> cases hout <;> rfl

theorem Traffic.fed_ofInbound (endpoint : SocketAddr) (outs : List Inbound) :
    (outs.filterMap (ofInbound endpoint)).filterMap fed? = [] := by
  refine List.filterMap_eq_nil_iff.mpr fun note hnote => ?_
  obtain ⟨out, -, hout⟩ := List.mem_filterMap.mp hnote
  cases out <;> cases hout <;> rfl

namespace Pump

variable {P : Primitives} {pump next last : Pump} {calls more : List Call}
  {outs rest : List Inbound} {log logs : List Event}

theorem run_append (hrun : pump.run P calls = .ok (next, outs, log))
    (hmore : next.run P more = .ok (last, rest, logs)) :
    pump.run P (calls ++ more) = .ok (last, outs ++ rest, log ++ logs) := by
  induction calls generalizing pump outs log with
  | nil =>
      cases hrun
      exact hmore
  | cons call calls ih =>
      obtain ⟨mid, out, first, outs, log, hperform, hcalls, rfl, rfl⟩ := run_cons hrun
      rw [List.cons_append, run, hperform]
      simp only [ih hcalls, List.cons_append, List.append_assoc]

theorem run_single {call : Call} {out : Inbound}
    (hperform : pump.perform P call = .ok (next, out, log)) :
    pump.run P [call] = .ok (next, [out], log) := by
  simp only [run, hperform, List.append_nil]

/-- The traffic is that of a run of the pump. -/
def Carries (P : Primitives) (pump last : Pump) (traffic : List Traffic) : Prop :=
  ∃ calls outs log, pump.run P calls = .ok (last, outs, log) ∧
    Inbound.visible outs = traffic.filterMap Traffic.shown? ∧
    calls.filterMap Call.submitted? = traffic.filterMap Traffic.submitted? ∧
    calls.filterMap Call.fed? = traffic.filterMap Traffic.fed?

theorem Carries.refl (pump : Pump) : Carries P pump pump [] :=
  ⟨[], [], [], rfl, rfl, rfl, rfl⟩

theorem Carries.trans {front back : List Traffic} (hfirst : Carries P pump next front)
    (hsecond : Carries P next last back) : Carries P pump last (front ++ back) := by
  obtain ⟨calls, outs, log, hrun, hshown, hsubmitted, hfed⟩ := hfirst
  obtain ⟨more, rest, logs, hmore, hshown', hsubmitted', hfed'⟩ := hsecond
  refine ⟨calls ++ more, outs ++ rest, log ++ logs, run_append hrun hmore, ?_, ?_, ?_⟩
  · rw [Inbound.visible_append, hshown, hshown', List.filterMap_append]
  · rw [List.filterMap_append, hsubmitted, hsubmitted', List.filterMap_append]
  · rw [List.filterMap_append, hfed, hfed', List.filterMap_append]

/-- One call carries what it takes and what it puts out. -/
theorem carries_perform (call : Call) {out : Inbound} {traffic : List Traffic}
    (hperform : pump.perform P call = .ok (next, out, log))
    (hshown : Inbound.visible [out] = traffic.filterMap Traffic.shown?)
    (hsubmitted : call.submitted?.toList = traffic.filterMap Traffic.submitted?)
    (hfed : call.fed?.toList = traffic.filterMap Traffic.fed?) : Carries P pump next traffic := by
  refine ⟨[call], [out], log, run_single hperform, hshown, ?_, ?_⟩
  · rw [← hsubmitted]
    cases call <;> rfl
  · rw [← hfed]
    cases hcall : call.fed? <;> simp [hcall]

theorem carries_encapsulate {m : Moment} {packet : Bytes} {datagram : Option Bytes}
    (hstep : pump.encapsulate P m packet = .ok (next, datagram)) (endpoint : SocketAddr) :
    Carries P pump next (.submitted packet :: (datagram.map (.sent · endpoint)).toList) := by
  refine carries_perform (.encapsulate m packet) (by rw [perform, hstep]) ?_ ?_ ?_ <;>
    cases datagram <;> rfl

theorem carries_updateTimers {m : Moment} {datagram : Option Bytes}
    (hstep : pump.updateTimers P m = .ok (next, datagram)) (endpoint : SocketAddr) :
    Carries P pump next (datagram.map (.sent · endpoint)).toList := by
  refine carries_perform (.updateTimers m) (by rw [perform, hstep]) ?_ ?_ ?_ <;>
    cases datagram <;> rfl

theorem carries_initiateHandshake {m : Moment} {datagram : Option Bytes}
    (hstep : pump.initiateHandshake P m = (next, datagram)) (endpoint : SocketAddr) :
    Carries P pump next (datagram.map (.sent · endpoint)).toList := by
  refine carries_perform (.initiateHandshake m) (by rw [perform, hstep]) ?_ ?_ ?_ <;>
    cases datagram <;> rfl

theorem carries_decapsulate {m : Moment} {datagram : Bytes} {out : Inbound}
    (hstep : pump.decapsulate P m datagram = .ok (next, out)) (endpoint : SocketAddr) :
    Carries P pump next (.fed datagram :: [out].filterMap (Traffic.ofInbound endpoint)) := by
  refine carries_perform (.decapsulate m datagram) (by rw [perform, hstep]) ?_ ?_ ?_
  · cases out <;> rfl
  · cases out <;> rfl
  · rw [List.filterMap_cons, Traffic.fed_ofInbound]
    by_cases hempty : datagram = [] <;> simp [Call.fed?, Traffic.fed?, hempty]

/-- Draining feeds nothing. -/
theorem carries_drain {m : Moment} {out : Inbound} (hstep : pump.drain P m = .ok (next, out))
    (endpoint : SocketAddr) :
    Carries P pump next ([out].filterMap (Traffic.ofInbound endpoint)) := by
  obtain ⟨calls, outs, log, hrun, hshown, hsubmitted, hfed⟩ := carries_decapsulate hstep endpoint
  exact ⟨calls, outs, log, hrun, hshown, hsubmitted, hfed⟩

theorem carries_drainLoop {moments : Nat → Moment} {fuel call : Nat}
    (hloop : drainLoop P moments fuel call pump = .ok (last, outs)) (endpoint : SocketAddr) :
    Carries P pump last (outs.filterMap (Traffic.ofInbound endpoint)) := by
  induction fuel generalizing pump call outs with
  | zero =>
      cases hloop
      exact .refl _
  | succ fuel ih =>
      rw [drainLoop] at hloop
      cases hdrain : pump.drain P (moments call) with
      | error panic => simp [hdrain] at hloop
      | ok result =>
          obtain ⟨next, out⟩ := result
          have hcarries := carries_drain hdrain endpoint
          simp only [hdrain] at hloop
          -- the loop stops when the pump has nothing more, and passes on everything before
          by_cases hnothing : out = .nothing
          · subst hnothing
            cases hloop
            exact hcarries
          · cases hrest : drainLoop P moments fuel (call + 1) next with
            | error panic => cases out <;> simp_all
            | ok result =>
                obtain ⟨reached, rest⟩ := result
                have hlast : reached = last ∧ out :: rest = outs := by
                  cases out <;> simp_all
                obtain ⟨rfl, rfl⟩ := hlast
                rw [← List.singleton_append, List.filterMap_append]
                exact hcarries.trans (ih hrest)

/-- Receiving a datagram carries the datagram, and all that comes out of the pump. -/
theorem carries_receivePart {moments : Nat → Moment} {drains : Nat} {datagram : Bytes}
    (hreceive : pump.receivePart P moments drains datagram = .ok (last, outs))
    (endpoint : SocketAddr) :
    Carries P pump last (.fed datagram :: outs.filterMap (Traffic.ofInbound endpoint)) := by
  rw [receivePart] at hreceive
  cases hdecapsulate : pump.decapsulate P (moments 0) datagram with
  | error panic => simp [hdecapsulate] at hreceive
  | ok result =>
      obtain ⟨next, first⟩ := result
      simp only [hdecapsulate] at hreceive
      cases hloop : drainLoop P moments drains 1 next with
      | error panic => simp [hloop] at hreceive
      | ok result =>
          obtain ⟨reached, rest⟩ := result
          simp only [hloop, Except.ok.injEq, Prod.mk.injEq] at hreceive
          obtain ⟨rfl, rfl⟩ := hreceive
          rw [← List.singleton_append (l := rest), List.filterMap_append, ← List.cons_append]
          exact (carries_decapsulate hdecapsulate endpoint).trans (carries_drainLoop hloop endpoint)

theorem carries_receive {moments : Nat → Moment} {datagram : Bytes}
    (hreceive : pump.receive P moments datagram = .ok (last, outs)) (endpoint : SocketAddr) :
    Carries P pump last (.fed datagram :: outs.filterMap (Traffic.ofInbound endpoint)) := by
  obtain ⟨drains, hpart⟩ := receive_eq_receivePart P moments pump datagram
  exact carries_receivePart (hpart ▸ hreceive) endpoint

end Pump

end Newt.Wg
