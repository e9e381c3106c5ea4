import Newt.Olm.Turns

/-! # When a client speaks to the server

A client asks for a connect when its session starts and at every tick until the first answer,
and never after it. It pings the server at every tenth tick, whatever else happens.
-/

namespace Newt.Olm.Loop

open Foundation Noise Wg Stack
open Proxy hiding Bytes

variable {Json σ β : Type} (client : Client Json) (alloc : Allocator) (api : TcpApi σ)
  (cfg : ClientRun)

/-! ## Only ticks speak to the server -/

/-- Notes that the server gets. -/
def Note.speaks : Note → Bool
  | .registered | .pinged => true
  | _ => false

/-- A part of a turn that says nothing to the server. -/
def Quiet {α : Type} (x : Traced Note Halt α) : Prop := x.Only fun note => note.speaks = false

theorem sendOut_quiet (send : Except IoError Unit) (out : Option (Bytes × SocketAddr)) :
    Quiet (sendOut send out) := by
  cases out with
  | none => exact Traced.only_pure
  | some out => exact Traced.only_tell_bind rfl Traced.only_lift

theorem sendEach_quiet {note : Bytes → SocketAddr → Note}
    (hnote : ∀ datagram endpoint, (note datagram endpoint).speaks = false)
    (send : Nat → Except IoError Unit) (k : Nat) (datagrams : List (Bytes × SocketAddr)) :
    Quiet (sendEach note send k datagrams) := by
  induction datagrams generalizing k with
  | nil => exact Traced.only_pure
  | cons out datagrams ih =>
      refine Traced.only_tell_bind (hnote out.1 out.2) ?_
      exact Traced.only_lift.bind fun _ => ih (k + 1)

theorem upsertSite_quiet (w : Surroundings β) (k : Nat) (d : DataPlane β) (site : SiteConfig) :
    Quiet (upsertSite client w k d site) := by
  rw [upsertSite]
  exact (sendOut_quiet _ _).bind fun _ => Traced.only_pure

theorem syncSites_quiet (w : Surroundings β) (k : Nat) (d : DataPlane β)
    (sites : List SiteConfig) : Quiet (syncSites client w k d sites) := by
  induction sites generalizing k d with
  | nil => exact Traced.only_pure
  | cons site sites ih => exact (upsertSite_quiet client w k d site).bind fun d => ih (k + 1) d

theorem peerMessage_quiet (w : Surroundings β) (d : DataPlane β) (topic : Topic) (data : Json) :
    Quiet (peerMessage client w d topic data) := by
  cases topic with
  | peerAdd | peerUpdate =>
      rw [peerMessage]
      split
      · exact Traced.only_pure
      · exact upsertSite_quiet client w 0 d _
  | sync =>
      rw [peerMessage]
      split
      · exact Traced.only_pure
      · exact syncSites_quiet client w 0 d _
  | _ => exact Traced.only_pure

theorem message_quiet (w : Surroundings β) (dp : Option (DataPlane β)) (msg : WsMessage Json) :
    Quiet (message client w dp msg) := by
  have hconnect (wg : WgData) : Quiet (connect client w dp wg) := by
    refine Traced.only_lift.bind fun out => ?_
    exact (sendEach_quiet (fun _ _ => rfl) _ _ _).bind fun _ => Traced.only_pure
  rw [message]
  split
  · exact Traced.only_pure
  · exact (hconnect _).bind fun _ => Traced.only_pure
  · exact Traced.only_pure
  · exact Traced.only_lift
  · split
    · exact Traced.only_pure
    · exact (peerMessage_quiet client w _ _ _).bind fun _ => Traced.only_pure

theorem handOut_quiet (outcome : Nat → Except IoError Unit) (k : Nat) (x : Exposed σ)
    (outs : List Out) : Quiet (handOut outcome k x outs) := by
  induction outs generalizing k x with
  | nil => exact Traced.only_pure
  | cons out outs ih =>
      cases out with
      | toNet datagram endpoint =>
          refine Traced.only_tell_bind rfl ?_
          exact Traced.only_lift.bind fun _ => ih (k + 1) x
      | toHost packet =>
          rw [handOut]
          refine Traced.only_tell_bind rfl ?_
          split
          · exact ih (k + 1) _
          · refine Traced.only_tell_bind rfl ?_
            exact Traced.only_lift.bind fun _ => ih (k + 1) x

theorem routeAll_quiet (moments : Nat → Moment) (send : Nat → Except IoError Unit) (k : Nat)
    (d : DataPlane (Exposed σ)) (packets : List Bytes) :
    Quiet (routeAll client moments send k d packets) := by
  induction packets generalizing k d with
  | nil => exact Traced.only_pure
  | cons packet packets ih =>
      refine Traced.only_lift.bind fun out => ?_
      exact (sendOut_quiet _ _).bind fun _ => ih (k + 1) _

theorem drive_quiet (env : Driving σ) (d : DataPlane (Exposed σ)) :
    Quiet (drive client alloc api env d) := by
  have hbackend : Quiet (driveBackend client alloc api env d.backend) := by
    rw [driveBackend]
    split
    · refine Traced.only_lift.bind fun _ => Traced.only_tell_bind rfl ?_
      exact Traced.only_lift.bind fun _ => Traced.only_pure
    · exact Traced.only_lift.bind fun _ => Traced.only_pure
  exact hbackend.bind fun _ => routeAll_quiet client _ _ _ _ _

theorem onPlane_quiet {part : DataPlane (Exposed σ) → Traced Note Halt (DataPlane (Exposed σ))}
    (hpart : ∀ d, Quiet (part d)) (dp : Option (DataPlane (Exposed σ))) :
    Quiet (onPlane part dp) := by
  cases dp with
  | none => exact Traced.only_pure
  | some d => exact (hpart d).bind fun _ => Traced.only_pure

def Wake.isTick : Wake Json σ → Bool
  | .tick _ => true
  | _ => false

theorem turn_quiet (loop : Loop σ) {wake : Wake Json σ} (hwake : wake.isTick = false) :
    Quiet (turn client alloc api cfg loop wake) := by
  cases wake with
  | message received w =>
      rcases received with e | _ | msg
      · exact Traced.only_lift
      · exact Traced.only_lift
      · exact (message_quiet client _ loop.dp msg).bind fun _ => Traced.only_pure
  | tick env => cases hwake
  | datagram env =>
      refine Traced.only_lift.bind fun arrived => ?_
      refine (onPlane_quiet (fun d => ?_) loop.dp).bind fun _ => Traced.only_pure
      refine Traced.only_lift.bind fun out => ?_
      exact (handOut_quiet _ _ _ _).bind fun _ => Traced.only_pure
  | drive env =>
      exact (onPlane_quiet (drive_quiet client alloc api env) loop.dp).bind fun _ =>
        Traced.only_pure
  | task h event => exact Traced.only_pure

/-! ## What a turn says -/

variable {client alloc api cfg}

theorem filter_speaks_of_quiet {notes : List Note} (hquiet : ∀ note ∈ notes, note.speaks = false) :
    notes.filter Note.speaks = [] := by
  rw [List.filter_eq_nil_iff]
  intro note hmem
  simp [hquiet note hmem]

theorem Quiet.silent {α : Type} {x : Traced Note Halt α} (hquiet : Quiet x) :
    x.Ends fun notes _ => notes.filter Note.speaks = [] :=
  fun _ _ => filter_speaks_of_quiet hquiet

theorem heartbeat_spoken (send : Except IoError Unit) (pingTicks : Nat) :
    (heartbeat send pingTicks).Ends fun notes next =>
      notes.filter Note.speaks = (if 10 ≤ pingTicks + 1 then [.pinged] else []) ∧
        next = if 10 ≤ pingTicks + 1 then 0 else pingTicks + 1 := by
  rw [heartbeat]
  split
  · apply Traced.ends_tell_bind
    exact Traced.ends_lift_bind fun _ _ => Traced.ends_pure ⟨rfl, rfl⟩
  · exact Traced.ends_pure ⟨rfl, rfl⟩

theorem tick_spoken (env : Ticking) (loop : Loop σ) :
    (tick client env loop).Ends fun notes after =>
      notes.filter Note.speaks = (if loop.dp = none then [.registered] else []) ++
          (if 10 ≤ loop.pingTicks + 1 then [.pinged] else []) ∧
        after.pingTicks = if 10 ≤ loop.pingTicks + 1 then 0 else loop.pingTicks + 1 := by
  have hrouter (d : DataPlane (Exposed σ)) : Quiet (tickRouter client env d) := by
    refine Traced.only_lift.bind fun out => ?_
    exact (sendEach_quiet (fun _ _ => rfl) _ _ _).bind fun _ => Traced.only_pure
  have hrest : (do
      sendEach .punched env.punch 0 env.punches
      let dp ← onPlane (tickRouter client env) loop.dp
      let pingTicks ← heartbeat env.ping loop.pingTicks
      return ⟨dp, pingTicks⟩ : Traced Note Halt (Loop σ)).Ends fun notes after =>
        notes.filter Note.speaks = (if 10 ≤ loop.pingTicks + 1 then [.pinged] else []) ∧
          after.pingTicks = if 10 ≤ loop.pingTicks + 1 then 0 else loop.pingTicks + 1 := by
    refine (sendEach_quiet (fun _ _ => rfl) env.punch 0 env.punches).silent.bind ?_
    intro punches _ hpunches
    refine (onPlane_quiet hrouter loop.dp).silent.bind ?_
    intro ticks dp hticks
    refine (heartbeat_spoken env.ping loop.pingTicks).bind ?_
    intro pings next hpings
    refine Traced.ends_pure ⟨?_, hpings.2⟩
    simp only [List.filter_append, hpunches, hticks, hpings.1, List.nil_append, List.append_nil]
  have hregister : (register env.register).Ends fun notes _ => notes = [.registered] :=
    Traced.ends_tell_bind (Traced.ends_lift fun _ _ => rfl)
  rw [tick]
  split
  · next hnone =>
      rw [if_pos (Option.isNone_iff_eq_none.mp hnone)]
      refine hregister.bind ?_
      rintro _ _ rfl after hafter
      obtain ⟨hsaid, hpings⟩ := hrest after hafter
      exact ⟨congrArg (Note.registered :: ·) hsaid, hpings⟩
  · next hsome =>
      rw [if_neg fun hnone => hsome (Option.isNone_iff_eq_none.mpr hnone)]
      exact hrest

theorem turn_silent (loop : Loop σ) {wake : Wake Json σ} (hwake : wake.isTick = false) :
    (turn client alloc api cfg loop wake).Ends fun notes after =>
      notes.filter Note.speaks = [] ∧ after.pingTicks = loop.pingTicks := by
  have hsame : (turn client alloc api cfg loop wake).Ends fun _ after =>
      after.pingTicks = loop.pingTicks := by
    have hany {α : Type} (x : Traced Note Halt α) : x.Ends fun _ _ => True := fun _ _ => trivial
    cases wake with
    | message received w =>
        rcases received with e | _ | msg
        · exact Traced.ends_lift fun _ herror => by cases herror
        · exact Traced.ends_lift fun _ herror => by cases herror
        · exact (hany _).bind fun _ _ _ => Traced.ends_pure rfl
    | tick env => cases hwake
    | datagram env =>
        exact Traced.ends_lift_bind fun _ _ => (hany _).bind fun _ _ _ => Traced.ends_pure rfl
    | drive env => exact (hany _).bind fun _ _ _ => Traced.ends_pure rfl
    | task h event => exact Traced.ends_pure rfl
  intro after hafter
  exact ⟨(turn_quiet client alloc api cfg loop hwake).silent after hafter, hsame after hafter⟩

/-! ## What a session says -/

/-- A session has a data plane exactly when a connect was among its events. -/
theorem session_dp {send : Except IoError Unit} {wakes : List (Wake Json σ)} {loop : Loop σ}
    (hsession : (session client alloc api cfg send wakes).result = .ok loop) :
    loop.dp = none ↔ ∀ wake ∈ wakes, wake.connect? = none := by
  constructor
  · intro hnone
    induction wakes using List.reverseRecOn generalizing loop with
    | nil => simp
    | append_singleton wakes wake ih =>
        obtain ⟨before, hbefore, hturn, -⟩ := session_concat hsession
        cases hwake : wake.connect? with
        | some connect =>
            obtain ⟨next, hnext, -⟩ := turn_connect hwake loop hturn
            rw [hnone] at hnext
            cases hnext
        | none =>
            cases hprior : before.dp with
            | none =>
                rw [List.forall_mem_append]
                exact ⟨ih hbefore hprior, by simpa using hwake⟩
            | some prior =>
                obtain ⟨_, _, _, _, _, _, -, -, -, -, hraised⟩ := session_raised hbefore hprior
                obtain ⟨next, hnext, -⟩ := turn_step hprior hraised.mode hwake loop hturn
                rw [hnone] at hnext
                cases hnext
  · intro hnone
    cases hdp : loop.dp with
    | none => rfl
    | some d =>
        obtain ⟨earlier, wake, later, _, _, _, rfl, hwake, -⟩ := session_raised hsession hdp
        have hother := hnone wake (List.mem_append_right earlier List.mem_cons_self)
        rw [hwake] at hother
        cases hother

/-- One more element counts if nothing before it ended the count. -/
theorem countP_takeWhile_concat {α : Type} (p q : α → Bool) (l : List α) (a : α) :
    ((l ++ [a]).takeWhile p).countP q =
      (l.takeWhile p).countP q +
        if (∀ b ∈ l, p b = true) ∧ p a = true ∧ q a = true then 1 else 0 := by
  induction l with
  | nil =>
      by_cases hp : p a = true <;> by_cases hq : q a = true <;> simp [hp, hq]
  | cons b l ih =>
      by_cases hp : p b = true
      · simp only [List.cons_append, List.takeWhile_cons, hp, if_true, List.countP_cons, ih,
          List.forall_mem_cons, true_and]
        omega
      · simp [hp]

section Said

variable (a b : Prop) [Decidable a] [Decidable b]

theorem count_registered :
    ((if a then [Note.registered] else []) ++ if b then [Note.pinged] else []).count
      .registered = if a then 1 else 0 := by
  split <;> split <;> rfl

theorem count_pinged :
    ((if a then [Note.registered] else []) ++ if b then [Note.pinged] else []).count
      .pinged = if b then 1 else 0 := by
  split <;> split <;> rfl

end Said

/-- In every session, the client has asked for a connect once at the start and at every tick up
to the first connect, and never after that, and it has pinged the server once in ten ticks. -/
theorem session_schedule {send : Except IoError Unit} {wakes : List (Wake Json σ)} {loop : Loop σ}
    (hsession : (session client alloc api cfg send wakes).result = .ok loop) :
    (session client alloc api cfg send wakes).notes.count .registered =
        1 + (wakes.takeWhile fun wake => wake.connect?.isNone).countP Wake.isTick ∧
      (session client alloc api cfg send wakes).notes.count .pinged =
        wakes.countP Wake.isTick / 10 ∧
      loop.pingTicks = wakes.countP Wake.isTick % 10 := by
  induction wakes using List.reverseRecOn generalizing loop with
  | nil =>
      cases send with
      | error e => cases hsession
      | ok _ =>
          cases hsession
          exact ⟨rfl, (Nat.zero_div 10).symm, rfl⟩
  | append_singleton wakes wake ih =>
      obtain ⟨before, hbefore, hturn, hnotes⟩ := session_concat hsession
      obtain ⟨hregistered, hpinged, hticks⟩ := ih hbefore
      have hcount {note : Note} (hspeaks : note.speaks = true) :
          (turn client alloc api cfg before wake).notes.count note =
            ((turn client alloc api cfg before wake).notes.filter Note.speaks).count note :=
        (List.count_filter hspeaks).symm
      rw [hnotes, List.count_append, List.count_append, hregistered, hpinged, hcount rfl,
        hcount rfl, countP_takeWhile_concat, List.countP_append, List.countP_singleton]
      cases hwake : wake.isTick with
      | false =>
          obtain ⟨hsaid, hsame⟩ := turn_silent before hwake loop hturn
          rw [hsaid, hsame, hticks]
          simp
      | true =>
          cases wake with
          | tick env =>
              obtain ⟨hsaid, hpings⟩ := tick_spoken env before loop hturn
              have hnone : (∀ wake ∈ wakes, wake.connect?.isNone = true) ↔ before.dp = none := by
                simp only [Option.isNone_iff_eq_none, session_dp hbefore]
              have hspoken :
                  (turn client alloc api cfg before (.tick env)).notes.filter Note.speaks =
                    (if before.dp = none then [.registered] else []) ++
                      (if 10 ≤ before.pingTicks + 1 then [.pinged] else []) := hsaid
              have hplain : (.tick env : Wake Json σ).connect?.isNone = true := rfl
              rw [hspoken, hpings, hticks, count_registered, count_pinged]
              simp only [hnone, hplain, and_true, if_true]
              refine ⟨by omega, ?_, ?_⟩
              · split <;> omega
              · split <;> omega
          | _ => cases hwake

theorem session_schedule_connected :
    ∃ loop : Loop BufferedSocket, loop.dp.isSome = true ∧
      (session Client.plain .firstFree bufferedApi Client.forwarding (.ok ())
        connected).notes.count .registered = 2 ∧ loop.pingTicks = 2 := by
  obtain ⟨loop, d, hsession, hdp⟩ := session_connected
  obtain ⟨hregistered, -, hticks⟩ := session_schedule hsession
  exact ⟨loop, by rw [hdp]; rfl, hregistered, hticks⟩

end Newt.Olm.Loop
