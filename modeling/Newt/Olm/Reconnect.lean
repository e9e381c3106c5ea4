import Newt.Olm.Backend
import Newt.Olm.Routes

/-! # Repeated connects

The client asks for a connect every second until it has a data plane, so several
answers can arrive. Each one creates a new backend while the old one is still
there, and this succeeds exactly if the old one holds nothing that the new one
needs.
-/

namespace Newt.Olm

open Foundation Noise Wg

/-- What the handling of one message meets, with the backends of this program. -/
structure Conditions where
  host : Host
  resolve : Nat → String → Option SocketAddr
  moment : Nat → Moment
  durationAtStart : Nat → Nat
  send : Nat → Except IoError Unit

def Conditions.surroundings (σ : Type) (cfg : ClientRun) (w : Conditions) :
    Surroundings (Backend σ) where
  resolve := w.resolve
  moment := w.moment
  durationAtStart := w.durationAtStart
  send := w.send
  newBackend := Backend.new w.host cfg
  addRoutes k cidrs b := b.addRoutes (w.host.routeAdded k) cidrs

namespace Client

variable {Json σ : Type} (client : Client Json) (cfg : ClientRun) (w : Conditions)

/-- A well-formed connect: the payload decodes and names an address of the client. -/
structure IsConnect (msg : WsMessage Json) (wg : WgData) (tunnelIp : IpAddr) : Prop where
  topic : Topic.ofText msg.typ = some .connect
  payload : client.serde.wgData msg.data = some wg
  address : IpAddr.parse (Text.splitFirst '/' wg.tunnelIp.toList) = some tunnelIp

/-- The data plane has the sites of the message and nothing else, and a new backend
with their routes. -/
structure Describes (wg : WgData) (tunnelIp : IpAddr) (d : DataPlane (Backend σ)) : Prop where
  unique : d.router.UniqueSites
  table : d.router.table = client.changeSites (w.surroundings σ cfg) 0 wg.sites fun _ => none
  backend : ∃ b, Backend.new w.host cfg none tunnelIp = .ok b ∧
    d.backend = b.addRoutes (w.host.routeAdded 0) (sitesRoutes (w.surroundings σ cfg) 0 wg.sites)

/-- A well-formed connect replaces the data plane. -/
def Replaced (dp : Option (DataPlane (Backend σ))) (msg : WsMessage Json) : Prop :=
  ∀ wg tunnelIp, client.IsConnect msg wg tunnelIp →
    ∃ d, client.handleMessage (w.surroundings σ cfg) dp msg = (some d, .ok false) ∧
      client.Describes cfg w wg tunnelIp d

/-- A backend can be created at all, the current one does not hold what it needs,
and the initiations can be sent. -/
def Replaceable (dp : Option (DataPlane (Backend σ))) (msg : WsMessage Json) : Prop :=
  ∀ wg tunnelIp, client.IsConnect msg wg tunnelIp →
    cfg.Ready w.host ∧ cfg.Unheld (dp.map DataPlane.backend) ∧
      ∀ j < client.usableCount (w.surroundings σ cfg) 0 wg.sites, (w.send j).isOk = true

variable {client cfg w}

/-- A connect is refused when no backend can be created, and the session ends. -/
theorem IsConnect.refused {dp : Option (DataPlane (Backend σ))} {msg : WsMessage Json}
    {wg : WgData} {tunnelIp : IpAddr} (hconnect : client.IsConnect msg wg tunnelIp)
    (hnone : ¬ (cfg.Ready w.host ∧ cfg.Unheld (dp.map DataPlane.backend))) :
    ∃ e, client.handleMessage (w.surroundings σ cfg) dp msg = (dp, .error e) := by
  rw [← Backend.new_ok_iff w.host cfg (dp.map DataPlane.backend) tunnelIp] at hnone
  have hbuild : ∃ e, client.buildDataplane (w.surroundings σ cfg) (dp.map DataPlane.backend) wg =
      .error e := by
    refine client.buildDataplane_error _ ?_
    rintro ⟨ip, backend, hip, hbackend⟩
    rw [hconnect.address] at hip
    cases hip
    exact hnone ⟨backend, hbackend⟩
  obtain ⟨e, herror⟩ := hbuild
  exact ⟨e, by simp [handleMessage, hconnect.topic, hconnect.payload, herror]⟩

/-- What a connect does once its backend is created. -/
theorem IsConnect.handled {dp : Option (DataPlane (Backend σ))} {msg : WsMessage Json}
    {wg : WgData} {tunnelIp : IpAddr} (hconnect : client.IsConnect msg wg tunnelIp)
    (hready : cfg.Ready w.host) (hunheld : cfg.Unheld (dp.map DataPlane.backend)) :
    ∃ d, client.Describes cfg w wg tunnelIp d ∧
      if ∀ j < client.usableCount (w.surroundings σ cfg) 0 wg.sites, (w.send j).isOk = true then
        client.handleMessage (w.surroundings σ cfg) dp msg = (some d, .ok false)
      else ∃ e, client.handleMessage (w.surroundings σ cfg) dp msg = (dp, .error e) := by
  obtain ⟨backend, hnew⟩ :=
    (Backend.new_ok_iff w.host cfg (dp.map DataPlane.backend) tunnelIp).mpr ⟨hready, hunheld⟩
  have hwg : (client.serde.wgData msg.data).getD .default = wg := by rw [hconnect.payload]; rfl
  obtain ⟨d, hrouter, hbackend, hhandled⟩ :=
    client.handleMessage_connect (w.surroundings σ cfg) hconnect.topic hwg hconnect.address hnew
  have hempty : (Router.new client.secret client.mtu).UniqueSites := List.nodup_nil
  refine ⟨d, ⟨?_, ?_, backend, ?_, hbackend⟩, hhandled⟩
  · rw [hrouter]
    exact client.buildSites_unique _ hempty wg.sites
  · rw [hrouter]
    exact (client.buildSites_spec _ 0 _ wg.sites).1
  · rw [← Backend.new_eq_of_unheld w.host cfg hunheld]
    exact hnew

/-- For any data plane, a connect replaces it exactly under the condition. -/
theorem replaced_iff (dp : Option (DataPlane (Backend σ))) (msg : WsMessage Json) :
    client.Replaced cfg w dp msg ↔ client.Replaceable cfg w dp msg := by
  refine forall₃_congr fun wg tunnelIp hconnect => ?_
  by_cases hfree : cfg.Ready w.host ∧ cfg.Unheld (dp.map DataPlane.backend)
  · obtain ⟨d, hdescribes, hhandled⟩ := hconnect.handled hfree.1 hfree.2
    split at hhandled
    · next hsent => exact iff_of_true ⟨d, hhandled, hdescribes⟩ ⟨hfree.1, hfree.2, hsent⟩
    · next hfails =>
        obtain ⟨e, hfailed⟩ := hhandled
        refine iff_of_false ?_ fun hall => hfails hall.2.2
        rintro ⟨_, hreplaced, _⟩
        rw [hfailed] at hreplaced
        cases hreplaced
  · obtain ⟨e, hrefused⟩ := hconnect.refused hfree
    refine iff_of_false ?_ fun hall => hfree ⟨hall.1, hall.2.1⟩
    rintro ⟨d, hhandled, _⟩
    rw [hrefused] at hhandled
    cases hhandled

/-- Once a connect replaced the data plane, no further one can, if the
configuration names an exclusive port or device. -/
theorem Describes.refuses {wg next : WgData} {tunnelIp nextIp : IpAddr}
    {d : DataPlane (Backend σ)} (hd : client.Describes cfg w wg tunnelIp d)
    (hexclusive : cfg.Exclusive) {w' : Conditions} {msg : WsMessage Json}
    (hconnect : client.IsConnect msg next nextIp) :
    ∃ e, client.handleMessage (w'.surroundings σ cfg) (some d) msg = (some d, .error e) := by
  refine hconnect.refused fun hfree => ?_
  obtain ⟨b, hnew, hbackend⟩ := hd.backend
  have hunheld : cfg.Unheld (some d.backend) := hfree.2
  rw [hbackend, Backend.unheld_new_iff w.host cfg hnew] at hunheld
  exact hunheld hexclusive

/-- In every session, each well-formed connect replaces the data plane exactly if
each meets the condition on the data plane it finds. -/
theorem session_replaced_iff (client : Client Json) (cfg : ClientRun)
    (steps : List (SessionStep Conditions Json (Backend σ))) :
    client.AtMessages (Conditions.surroundings σ cfg) steps (client.Replaced cfg) ↔
      client.AtMessages (Conditions.surroundings σ cfg) steps (client.Replaceable cfg) :=
  atMessages_congr (fun _ dp msg _ => replaced_iff dp msg) steps

/-! ## Two answers to the client -/

/-- A client with one forward. -/
def forwarding : ClientRun := ⟨.userspace, "olm", [⟨8080, "10.0.0.5", 80⟩], none⟩

/-- A system on which every call succeeds. -/
def calm : Conditions where
  host :=
    { linux := true
      call := fun _ => .ok ()
      ifIndex := fun _ => .ok 1
      assigned := id
      routeAdded := fun _ _ => true }
  resolve _ _ := some .documentation
  moment _ := ⟨0, []⟩
  durationAtStart _ := 0
  send _ := .ok ()

def answer : WsMessage (List SiteConfig) := ⟨"olm/wg/connect", [site 7 "10.0.0.0/24"]⟩

theorem second_answer_refused :
    ∃ d, plain.session (Conditions.surroundings Unit forwarding) [.message calm answer] =
        some (some d) ∧
      plain.handleMessage (calm.surroundings Unit forwarding) (some d) answer =
        (some d, .error "Address already in use") ∧
      ¬ plain.AtMessages (Conditions.surroundings Unit forwarding)
        [.message calm answer, .message calm answer] (plain.Replaced forwarding) := by
  refine ⟨_, rfl, rfl, ?_⟩
  intro hall
  have hconnect : plain.IsConnect answer ⟨[site 7 "10.0.0.0/24"], "100.89.0.5/24"⟩
      (.v4 #v[100, 89, 0, 5]) := ⟨by decide, rfl, rfl⟩
  obtain ⟨_, hhandled, _⟩ := hall [.message calm answer] calm answer [] _ rfl rfl _ _ hconnect
  cases hhandled

end Client

end Newt.Olm
