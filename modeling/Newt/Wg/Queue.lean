import Mathlib.Data.List.Rotate
import Newt.Noise.Steps
import Newt.Wg.NoPanic

/-! # Packets that wait for the session

A packet submitted before the session exists joins the queue of the tunnel. The
receive loops drain this queue after every datagram. Without a session `drain`
takes the first packet and queues it again behind the others, so every datagram
that does not bring the session up rotates the queue. No packet is lost or
doubled, but the order survives only if at most one packet waits whenever such a
datagram is processed.
-/

namespace Newt.Noise

open Foundation

namespace Session

variable (P : Primitives) (session : Session)

/-- The data packet that carries `packet` under the next counter. -/
def datagram (packet : Bytes) : Bytes :=
  leBytes 4 data ++ leBytes 4 session.sendingIndex.toNat ++ leBytes 8 session.sendingKeyCounter ++
    P.aeadChacha20Seal session.sender session.sendingKeyCounter packet []

/-- The session after one packet was sent. -/
def advance : Session :=
  { session with sendingKeyCounter := (session.sendingKeyCounter + 1) % 2 ^ 64 }

/-- The data packets of a sequence of packets, sent one after the other. -/
def datagrams (P : Primitives) : Session → List Bytes → List Bytes
  | _, [] => []
  | session, packet :: rest => session.datagram P packet :: datagrams P session.advance rest

theorem formatPacketData_eq {packet : Bytes} {dstLen : Nat}
    (hfit : packet.length + dataOverheadSz ≤ dstLen) :
    session.formatPacketData P packet dstLen =
      .ok (session.advance, session.datagram P packet) := by
  simp only [formatPacketData, if_neg (Nat.not_lt.mpr hfit)]
  rfl

end Session

namespace Tunn

variable (P : Primitives) (m : Moment) {t next : Tunn}

/-- The step `t` to `next` keeps the queue and the number of the current session,
and it establishes no session. -/
structure Lingers (t next : Tunn) : Prop where
  sessions : ∀ i, t.sessions i = none → next.sessions i = none
  current : next.current = t.current
  packetQueue : next.packetQueue = t.packetQueue

theorem Lingers.refl : t.Lingers t := ⟨fun _ hnone => hnone, rfl, rfl⟩

theorem Lingers.trans {middle : Tunn} (hfirst : t.Lingers middle)
    (hsecond : middle.Lingers next) : t.Lingers next where
  sessions i hnone := hsecond.sessions i (hfirst.sessions i hnone)
  current := hsecond.current.trans hfirst.current
  packetQueue := hsecond.packetQueue.trans hfirst.packetQueue

theorem formatHandshakeInitiation_lingers {result : TunnResult} {dstLen : Nat} {forceResend : Bool}
    (hformat : t.formatHandshakeInitiation P m dstLen forceResend = (next, result)) :
    t.Lingers next := by
  simp only [formatHandshakeInitiation] at hformat
  split_ifs at hformat
  · cases hformat
    exact .refl
  all_goals
    split at hformat <;> cases hformat <;> exact ⟨fun _ hnone => hnone, rfl, rfl⟩

theorem sendTimed_lingers {result : TunnResult} {dstLen : Nat} {required : Bool}
    (hsend : t.sendTimed P m dstLen required false = .ok (next, result)) : t.Lingers next := by
  cases required with
  | false =>
      cases hsend
      exact .refl
  | true => exact formatHandshakeInitiation_lingers P m (Except.ok.inj hsend)

/-- While an initiation awaits its response, the timers send it again or give up. -/
theorem updateTimers_lingers {result : TunnResult} {dstLen sent : Nat}
    (hsent : t.handshake.timer = some sent)
    (hstep : t.updateTimers P m dstLen = .ok (next, result))
    (hexpiry : next.handshake.isExpired = false) : t.Lingers next := by
  obtain ⟨last, hticked, hcases⟩ := updateTimers_cases hstep
  have hlast : t.Lingers last := by
    refine ⟨fun i hnone => ?_, hticked.current, hticked.packetQueue⟩
    rcases hticked.kept i with hsame | hgone
    · rw [hsame, hnone]
    · exact hgone
  rcases hcases with ⟨-, rfl, -⟩ | ⟨-, -, hgone⟩ | ⟨-, -, handshake, keepalive, hsend, hdue⟩
  · exact hlast
  · cases hgone
    cases hexpiry
  · obtain ⟨-, rfl⟩ := hdue sent hsent
    exact hlast.trans (sendTimed_lingers P m hsend)

/-- Without a session the packet joins the queue. -/
theorem encapsulate_waits (src : Bytes) {dstLen : Nat} (hnone : t.sessions (slot t.current) = none)
    (hinit : handshakeInitSz ≤ dstLen) :
    ∃ next result, t.encapsulate P m src dstLen = .ok (next, result) ∧
      (t.queuePacket src).Lingers next ∧
      (result = .done ∨ ∃ datagram, result = .writeToNetwork datagram) := by
  obtain ⟨next, result, hformat, _, hresult⟩ :=
    formatHandshakeInitiation_spec P m (t.queuePacket src) hinit
  refine ⟨next, result, ?_, formatHandshakeInitiation_lingers P m hformat,
    hresult.imp_right And.left⟩
  rw [encapsulate_noSession P m t hnone, hformat]

theorem Lingers.waits {src : Bytes} (hlingers : (t.queuePacket src).Lingers next)
    (hnone : t.sessions (slot t.current) = none) : next.sessions (slot next.current) = none := by
  rw [hlingers.current]
  apply hlingers.sessions
  simpa using hnone

/-- Without a session the first packet of the queue moves to the end. -/
theorem sendQueuedPacket_rotates {dstLen : Nat} (hnone : t.sessions (slot t.current) = none)
    (hinit : handshakeInitSz ≤ dstLen) (hroom : t.packetQueue.length ≤ maxQueueDepth) :
    ∃ next result, t.sendQueuedPacket P m dstLen = .ok (next, result) ∧
      next.sessions (slot next.current) = none ∧
      next.packetQueue = t.packetQueue.rotate 1 := by
  cases hqueue : t.packetQueue with
  | nil => exact ⟨t, .done, by simp only [sendQueuedPacket, hqueue], hnone, by simp [hqueue]⟩
  | cons packet rest =>
      have hfree : rest.length < maxQueueDepth := by
        rw [hqueue] at hroom
        exact hroom
      let popped : Tunn := { t with packetQueue := rest }
      have hpopped : popped.sessions (slot popped.current) = none := hnone
      obtain ⟨next, result, hengine, hlingers, hresult⟩ :=
        encapsulate_waits P m packet hpopped hinit
      refine ⟨next, result, ?_, hlingers.waits hpopped, ?_⟩
      · -- an initiation fits the buffer, so the packet is not requeued in front as well
        simp only [sendQueuedPacket, hqueue]
        rcases hresult with rfl | ⟨datagram, rfl⟩
        · rw [hengine]
        · rw [hengine]
      · rw [hlingers.packetQueue, List.rotate_cons_succ, List.rotate_zero]
        simp only [queuePacket, popped, if_pos hfree]

end Tunn

end Newt.Noise

namespace Newt.Wg.Pump

open Foundation Noise

variable {P : Primitives} {pump next : Pump}

/-- The session that encrypts, if there is one. -/
def session (pump : Pump) : Option Session := pump.tun.sessions (Tunn.slot pump.tun.current)

/-- At most one packet waits. -/
def Uncrowded (pump : Pump) : Prop := pump.tun.packetQueue.length ≤ 1

/-! ## Draining without a session -/

theorem drain_rotates (m : Moment) (hnone : pump.session = none)
    (hroom : pump.tun.packetQueue.length ≤ maxQueueDepth) :
    ∃ next more, pump.drain P m = .ok (next, more) ∧ next.session = none ∧
      next.tun.packetQueue = pump.tun.packetQueue.rotate 1 := by
  obtain ⟨tun, result, hsend, hnext, hturn⟩ :=
    Tunn.sendQueuedPacket_rotates P m hnone pump.handshakeInitSz_le_scratch hroom
  refine ⟨{ pump with tun := tun }, inbound result, ?_, hnext, hturn⟩
  simp only [drain, decapsulate, Tunn.decapsulate, if_true, hsend]

theorem drainLoop_rotates (moments : Nat → Moment) (fuel call : Nat) (hnone : pump.session = none)
    (hroom : pump.tun.packetQueue.length ≤ maxQueueDepth) :
    ∃ last out turns, drainLoop P moments fuel call pump = .ok (last, out) ∧
      last.session = none ∧ last.tun.packetQueue = pump.tun.packetQueue.rotate turns := by
  induction fuel generalizing call pump with
  | zero => exact ⟨pump, [], 0, rfl, hnone, by simp⟩
  | succ fuel ih =>
      obtain ⟨next, more, hdrain, hnext, hturn⟩ := drain_rotates (P := P) (moments call) hnone hroom
      obtain ⟨last, out, turns, hloop, hlast, hturns⟩ :=
        ih (call + 1) hnext (by rwa [hturn, List.length_rotate])
      rw [hturn, List.rotate_rotate] at hturns
      cases more with
      | nothing => exact ⟨next, [], 1, by simp [drainLoop, hdrain], hnext, hturn⟩
      | packet p =>
          exact ⟨last, .packet p :: out, _, by simp [drainLoop, hdrain, hloop], hlast, hturns⟩
      | network b =>
          exact ⟨last, .network b :: out, _, by simp [drainLoop, hdrain, hloop], hlast, hturns⟩

/-! ## Draining with a session -/

theorem drain_sends (m : Moment) {s : Session} (hsession : pump.session = some s)
    {packet : Bytes} {rest : List Bytes} (hqueue : pump.tun.packetQueue = packet :: rest)
    (hfit : packet.length ≤ max pump.mtu 1500) :
    ∃ next, pump.drain P m = .ok (next, .network (s.datagram P packet)) ∧
      next.session = some s.advance ∧ next.tun.packetQueue = rest ∧ next.mtu = pump.mtu := by
  have hsize : packet.length + dataOverheadSz ≤ pump.scratch := by
    simp only [dataOverheadSz, scratch]
    omega
  obtain ⟨tun, hengine, hnext, hrest, _⟩ := Tunn.encapsulate_formatted P m
    { pump.tun with packetQueue := rest } hsession (s.formatPacketData_eq P hsize)
  refine ⟨{ pump with tun := tun }, ?_, hnext, hrest, rfl⟩
  simp only [drain, decapsulate, Tunn.decapsulate, if_true, Tunn.sendQueuedPacket, hqueue,
    hengine, inbound]

theorem drainLoop_sends (moments : Nat → Moment) (call : Nat) {s : Session}
    (hsession : pump.session = some s)
    (hfits : ∀ packet ∈ pump.tun.packetQueue, packet.length ≤ max pump.mtu 1500) {fuel : Nat}
    (hfuel : pump.tun.packetQueue.length < fuel) :
    ∃ last, drainLoop P moments fuel call pump =
        .ok (last, (s.datagrams P pump.tun.packetQueue).map .network) ∧
      last.tun.packetQueue = [] := by
  generalize hwaiting : pump.tun.packetQueue = queue at hfits hfuel
  induction queue generalizing pump s call fuel with
  | nil =>
      obtain ⟨fuel, rfl⟩ : ∃ n, fuel = n + 1 := ⟨fuel - 1, by simp at hfuel; omega⟩
      refine ⟨pump, ?_, hwaiting⟩
      simp [drainLoop, drain, decapsulate, Tunn.decapsulate, Tunn.sendQueuedPacket, hwaiting,
        inbound, Session.datagrams]
  | cons packet rest ih =>
      obtain ⟨fuel, rfl⟩ : ∃ n, fuel = n + 1 := ⟨fuel - 1, by simp at hfuel; omega⟩
      obtain ⟨next, hdrain, hnext, hrest, hmtu⟩ :=
        drain_sends (P := P) (moments call) hsession hwaiting (hfits packet (by simp))
      obtain ⟨last, hloop, hempty⟩ := ih (call + 1) hnext hrest
        (fun waiting hmem => hmtu ▸ hfits waiting (by simp [hmem])) (by simpa using hfuel)
      exact ⟨last, by simp [drainLoop, hdrain, hloop, Session.datagrams], hempty⟩

/-- Draining does not end a session. -/
theorem drain_keeps_session {m : Moment} {more : Inbound} (hsession : pump.session ≠ none)
    (hdrain : pump.drain P m = .ok (next, more)) : next.session ≠ none := by
  obtain ⟨s, hsome⟩ := Option.ne_none_iff_exists'.mp hsession
  simp only [drain, decapsulate, Tunn.decapsulate, if_true, Tunn.sendQueuedPacket] at hdrain
  cases hqueue : pump.tun.packetQueue with
  | nil =>
      simp only [hqueue, Except.ok.injEq, Prod.mk.injEq] at hdrain
      rw [← hdrain.1]
      exact hsession
  | cons packet rest =>
      simp only [hqueue] at hdrain
      cases hformat : s.formatPacketData P packet pump.scratch with
      | error panic =>
          have hslot : pump.tun.sessions (Tunn.slot pump.tun.current) = some s := hsome
          simp only [Tunn.encapsulate, hslot, hformat] at hdrain
          cases hdrain
      | ok out =>
          obtain ⟨tun, hengine, hnext, _⟩ := Tunn.encapsulate_formatted P m
            { pump.tun with packetQueue := rest } hsome hformat
          rw [hengine] at hdrain
          cases hdrain
          rw [session, hnext]
          exact Option.some_ne_none _

theorem drainLoop_keeps_session {moments : Nat → Moment} {fuel call : Nat} {out : List Inbound}
    (hsession : pump.session ≠ none)
    (hloop : drainLoop P moments fuel call pump = .ok (next, out)) : next.session ≠ none := by
  induction fuel generalizing call pump out with
  | zero =>
      cases hloop
      exact hsession
  | succ fuel ih =>
      simp only [drainLoop] at hloop
      split at hloop
      · cases hloop
      · next hdrain =>
          cases hloop
          exact drain_keeps_session hsession hdrain
      · next hdrain =>
          split at hloop
          · cases hloop
          · next hrest =>
              cases hloop
              exact ih (drain_keeps_session hsession hdrain) hrest

/-! ## Runs before the session exists -/

theorem receive_rotates {moments : Nat → Moment} {datagram : Bytes} {out : List Inbound}
    (hnone : pump.session = none) (hroom : pump.tun.packetQueue.length ≤ maxQueueDepth)
    (hreceive : pump.receive P moments datagram = .ok (next, out))
    (hnext : next.session = none) :
    ∃ turns, next.tun.packetQueue = pump.tun.packetQueue.rotate turns := by
  simp only [receive] at hreceive
  split at hreceive
  · cases hreceive
  · next middle first hdecapsulate =>
      split at hreceive
      · cases hreceive
      · next last rest hloop =>
          cases hreceive
          obtain ⟨turn, hturn⟩ :
              ∃ turn, middle.tun.packetQueue = pump.tun.packetQueue.rotate turn := by
            by_cases hempty : datagram = []
            · subst hempty
              obtain ⟨_, _, hdrain, _, hturn⟩ := drain_rotates (P := P) (moments 0) hnone hroom
              rw [drain, hdecapsulate] at hdrain
              cases hdrain
              exact ⟨1, hturn⟩
            · refine ⟨0, ?_⟩
              rw [List.rotate_zero]
              exact (decapsulate_packetQueue P hempty hdecapsulate).1
          have hmiddle : middle.session = none := by
            by_contra hsession
            exact drainLoop_keeps_session hsession hloop hnext
          obtain ⟨_, _, turns, hrotates, _, hturns⟩ := drainLoop_rotates (P := P) moments
            (middle.pending + 1) 1 hmiddle (by rwa [hturn, List.length_rotate])
          rw [hloop] at hrotates
          cases hrotates
          exact ⟨turn + turns, by rw [hturns, hturn, List.rotate_rotate]⟩

/-- The runs of a pump before its session exists, with the packets submitted so
far. `Calm` restricts the states in which a datagram is processed. -/
inductive Waits (P : Primitives) (Calm : Pump → Prop) : List Bytes → Pump → Prop
  | new {pump : Pump} (hnone : pump.session = none) (hqueue : pump.tun.packetQueue = []) :
      Waits P Calm [] pump
  | submit {packets : List Bytes} {pump next : Pump} {m : Moment} {packet : Bytes}
      {out : Option Bytes} (prior : Waits P Calm packets pump)
      (step : pump.encapsulate P m packet = .ok (next, out)) :
      Waits P Calm (packets ++ [packet]) next
  | receive {packets : List Bytes} {pump next : Pump} {moments : Nat → Moment} {datagram : Bytes}
      {out : List Inbound} (prior : Waits P Calm packets pump) (calm : Calm pump)
      (step : pump.receive P moments datagram = .ok (next, out)) (hnone : next.session = none) :
      Waits P Calm packets next
  | initiate {packets : List Bytes} {pump : Pump} {m : Moment} (prior : Waits P Calm packets pump) :
      Waits P Calm packets (pump.initiateHandshake P m).1
  | timers {packets : List Bytes} {pump next : Pump} {m : Moment} {out : Option Bytes}
      (prior : Waits P Calm packets pump) (sent : pump.tun.handshake.timer ≠ none)
      (step : pump.updateTimers P m = .ok (next, out))
      (unexpired : next.tun.handshake.isExpired = false) :
      Waits P Calm packets next

/-- A submitted packet goes to the end of the queue. -/
theorem encapsulate_queues {m : Moment} {packet : Bytes} {out : Option Bytes}
    (hnone : pump.session = none) (hroom : pump.tun.packetQueue.length < maxQueueDepth)
    (hstep : pump.encapsulate P m packet = .ok (next, out)) :
    next.session = none ∧ next.tun.packetQueue = pump.tun.packetQueue ++ [packet] := by
  obtain ⟨tun, result, hengine, hlingers, _⟩ :=
    Tunn.encapsulate_waits P m packet hnone pump.handshakeInitSz_le_scratch
  simp only [encapsulate, hengine] at hstep
  cases hstep
  refine ⟨hlingers.waits hnone, ?_⟩
  rw [hlingers.packetQueue]
  simp only [Tunn.queuePacket, if_pos hroom]

theorem initiateHandshake_lingers (P : Primitives) (m : Moment) (pump : Pump) :
    pump.tun.Lingers (pump.initiateHandshake P m).1.tun :=
  Tunn.formatHandshakeInitiation_lingers P m rfl

theorem updateTimers_lingers {m : Moment} {out : Option Bytes}
    (hsent : pump.tun.handshake.timer ≠ none)
    (hstep : pump.updateTimers P m = .ok (next, out))
    (hunexpired : next.tun.handshake.isExpired = false) : pump.tun.Lingers next.tun := by
  obtain ⟨sent, hsome⟩ := Option.ne_none_iff_exists'.mp hsent
  simp only [updateTimers] at hstep
  split at hstep <;> cases hstep
  next hengine => exact Tunn.updateTimers_lingers P m hsome hengine hunexpired

theorem session_of_lingers (hlingers : pump.tun.Lingers next.tun) (hnone : pump.session = none) :
    next.session = none := by
  rw [session, hlingers.current]
  exact hlingers.sessions _ hnone

theorem rotate_of_uncrowded (hcalm : pump.Uncrowded) (turns : Nat) :
    pump.tun.packetQueue.rotate turns = pump.tun.packetQueue := by
  rw [Uncrowded] at hcalm
  cases hqueue : pump.tun.packetQueue with
  | nil => rw [List.rotate_nil]
  | cons packet rest =>
      have hlast : rest = [] := by simpa [hqueue] using hcalm
      rw [hlast, List.rotate_singleton]

/-- Whatever the run, every submitted packet waits exactly once. The packets wait
in their order if datagrams find at most one of them. -/
theorem Waits.packetQueue {Calm : Pump → Prop} {packets : List Bytes}
    (hwaits : Waits P Calm packets pump) (hcount : packets.length ≤ maxQueueDepth) :
    pump.session = none ∧ pump.tun.packetQueue.Perm packets ∧
      ((∀ state, Calm state → state.Uncrowded) → pump.tun.packetQueue = packets) := by
  induction hwaits with
  | new hnone hqueue => exact ⟨hnone, hqueue ▸ .refl _, fun _ => hqueue⟩
  | submit _ step ih =>
      rw [List.length_append, List.length_singleton] at hcount
      obtain ⟨hnone, hperm, horder⟩ := ih (by omega)
      obtain ⟨hnext, hqueue⟩ := encapsulate_queues hnone (by rw [hperm.length_eq]; omega) step
      rw [hqueue]
      exact ⟨hnext, hperm.append_right _, fun hcalm => by rw [horder hcalm]⟩
  | receive _ calm step hnext ih =>
      obtain ⟨hnone, hperm, horder⟩ := ih hcount
      obtain ⟨turns, hturns⟩ := receive_rotates hnone (hperm.length_eq ▸ hcount) step hnext
      rw [hturns]
      refine ⟨hnext, (List.rotate_perm _ _).trans hperm, fun hcalm => ?_⟩
      rw [rotate_of_uncrowded (hcalm _ calm), horder hcalm]
  | @initiate _ prev m _ ih =>
      obtain ⟨hnone, hqueue⟩ := ih hcount
      have hlingers := initiateHandshake_lingers P m prev
      exact ⟨session_of_lingers hlingers hnone, hlingers.packetQueue ▸ hqueue⟩
  | timers _ sent step unexpired ih =>
      obtain ⟨hnone, hqueue⟩ := ih hcount
      have hlingers := updateTimers_lingers sent step unexpired
      exact ⟨session_of_lingers hlingers hnone, hlingers.packetQueue ▸ hqueue⟩

/-- The drain loop after the datagram that establishes the session empties the
queue in its order. -/
theorem receive_sends {moments : Nat → Moment} {datagram : Bytes} {first : Inbound} {s : Session}
    (hnone : pump.session = none) (hroom : pump.tun.packetQueue.length ≤ maxQueueDepth)
    (hfits : ∀ packet ∈ pump.tun.packetQueue, packet.length ≤ max pump.mtu 1500)
    (hdecapsulate : pump.decapsulate P (moments 0) datagram = .ok (next, first))
    (hsession : next.session = some s) :
    ∃ last, pump.receive P moments datagram =
        .ok (last, first :: (s.datagrams P pump.tun.packetQueue).map .network) ∧
      last.tun.packetQueue = [] := by
  have hnonempty : datagram ≠ [] := by
    rintro rfl
    obtain ⟨_, _, hdrain, hstill, _⟩ := drain_rotates (P := P) (moments 0) hnone hroom
    rw [drain, hdecapsulate] at hdrain
    cases hdrain
    rw [hsession] at hstill
    cases hstill
  obtain ⟨hqueue, hmtu⟩ := decapsulate_packetQueue P hnonempty hdecapsulate
  rw [← hqueue, ← hmtu] at hfits
  have hfuel : next.tun.packetQueue.length < next.pending + 1 := by
    simp only [pending]
    omega
  obtain ⟨last, hloop, hempty⟩ := drainLoop_sends (P := P) moments 1 hsession hfits hfuel
  refine ⟨last, ?_, hempty⟩
  rw [hqueue] at hloop
  simp only [receive, hdecapsulate, hloop]

/-- Up to 256 packets are submitted before the session exists, and datagrams are
processed only while at most one of them waits. When a datagram then establishes
the session, the drain loop sends the encryptions of exactly these packets, each
once and in the order of their submission. -/
theorem Waits.sends_in_order {packets : List Bytes} (hwaits : Waits P Uncrowded packets pump)
    (hcount : packets.length ≤ maxQueueDepth)
    (hfits : ∀ packet ∈ packets, packet.length ≤ max pump.mtu 1500)
    {moments : Nat → Moment} {datagram : Bytes} {first : Inbound} {s : Session}
    (hdecapsulate : pump.decapsulate P (moments 0) datagram = .ok (next, first))
    (hsession : next.session = some s) :
    ∃ last, pump.receive P moments datagram =
        .ok (last, first :: (s.datagrams P packets).map .network) ∧
      last.tun.packetQueue = [] := by
  obtain ⟨hnone, _, horder⟩ := hwaits.packetQueue hcount
  have hqueue := horder fun _ hcalm => hcalm
  obtain ⟨last, hreceive, hempty⟩ := receive_sends hnone (hqueue ▸ hcount) (hqueue ▸ hfits)
    hdecapsulate hsession
  exact ⟨last, hqueue ▸ hreceive, hempty⟩

/-! ## Two packets and one datagram that means nothing -/

def fresh : Pump := Pump.new Primitives.null [] [] 1280 0

def submitted (pump : Pump) (packet : Bytes) : Pump :=
  match pump.encapsulate Primitives.null start packet with
  | .ok (next, _) => next
  | .error _ => pump

def received (pump : Pump) (datagram : Bytes) : Pump :=
  match pump.receive Primitives.null (fun _ => start) datagram with
  | .ok (next, _) => next
  | .error _ => pump

/-- The session that the response establishes, after its keepalive. -/
def answered : Session := ⟨1, 7, List.replicate 32 0, List.replicate 32 0, 1, .default⟩

/-- The keepalive that answers the response. -/
def keepalive : Inbound := .network ([4, 0, 0, 0, 7, 0, 0, 0] ++ List.replicate 24 0)

theorem waits_first {Calm : Pump → Prop} :
    Waits Primitives.null Calm [[1]] (fresh.submitted [1]) := by
  have hfresh : Waits Primitives.null Calm [] fresh := .new rfl rfl
  have hstep : ∃ out, fresh.encapsulate Primitives.null start [1] =
      .ok (fresh.submitted [1], out) := ⟨_, rfl⟩
  exact hstep.elim fun _ hfirst => .submit hfresh hfirst

theorem sends_first_then_second :
    ∃ last, (((fresh.submitted [1]).received [0]).submitted [2]).receive Primitives.null
        (fun _ => start) response =
      .ok (last, keepalive :: (answered.datagrams Primitives.null [[1], [2]]).map .network) ∧
      last.tun.packetQueue = [] := by
  have hjunk : Waits Primitives.null Uncrowded [[1]] ((fresh.submitted [1]).received [0]) := by
    have hstep : (fresh.submitted [1]).receive Primitives.null (fun _ => start) [0] =
        .ok ((fresh.submitted [1]).received [0], [.nothing]) := rfl
    exact .receive waits_first (Nat.le_refl 1) hstep rfl
  have hboth : Waits Primitives.null Uncrowded [[1], [2]]
      (((fresh.submitted [1]).received [0]).submitted [2]) := by
    have hstep : ((fresh.submitted [1]).received [0]).encapsulate Primitives.null start [2] =
        .ok (((fresh.submitted [1]).received [0]).submitted [2], none) := rfl
    exact .submit hjunk hstep
  exact hboth.sends_in_order (by decide) (by decide) rfl rfl

theorem sends_second_then_first :
    Waits Primitives.null (fun _ => True) [[1], [2]]
        (((fresh.submitted [1]).submitted [2]).received [0]) ∧
      (∃ last, (((fresh.submitted [1]).submitted [2]).received [0]).receive Primitives.null
          (fun _ => start) response =
        .ok (last, keepalive :: (answered.datagrams Primitives.null [[2], [1]]).map .network)) ∧
      answered.datagrams Primitives.null [[2], [1]] ≠
        answered.datagrams Primitives.null [[1], [2]] := by
  refine ⟨?_, ⟨_, rfl⟩, by decide⟩
  have hstep : (fresh.submitted [1]).encapsulate Primitives.null start [2] =
      .ok ((fresh.submitted [1]).submitted [2], none) := rfl
  have hjunk : ((fresh.submitted [1]).submitted [2]).receive Primitives.null
      (fun _ => start) [0] =
      .ok (((fresh.submitted [1]).submitted [2]).received [0], [.nothing]) := rfl
  exact .receive (.submit waits_first hstep) trivial hjunk rfl

end Newt.Wg.Pump
