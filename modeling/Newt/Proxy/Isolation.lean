import Newt.Olm.LocalPorts
import Newt.Proxy.Roles
import Newt.Proxy.Solo
import Newt.Site.Accept

/-! # Connections do not disturb each other

In both roles, a connection runs as if it were alone. New targets, removed
targets and whole new configurations, connections that are accepted or
originated, other connections that are serviced, fail, or are reaped, and handles
that are used again: nothing of this reaches the socket and the bridge of a
connection that is not concerned.
-/

namespace Newt

open Foundation Keyed Stack Proxy

namespace Site

variable {σ : Type} (alloc : Allocator) (api : TcpApi σ)

namespace DataPlane

/-- What an operation means for the connection behind `h`. -/
def Op.own (h : Handle) : Op σ → Option (Solo.Step σ)
  | .poll change => some (.poll (change h))
  | .shuttle _ => some .pass
  | .task k event => if k = h then some (.task event) else none
  | .addTargets _ => none
  | .removeTargets _ => none
  | .reconcileTargets _ => none
  | .acceptNew => none

/-- The pass over the bridges that an operation makes. -/
def Op.pass : Op σ → Option Plane.KeyOrder
  | .shuttle order => some order
  | _ => none

/-- A connection behind `h`, where no listener is. -/
structure Kept (h : Handle) (c : Solo σ) (d : DataPlane σ) : Prop where
  conn : d.toPlane.At h c
  clear : ∀ l ∈ d.listeners, l.handle ≠ h

variable {d d' : DataPlane σ} {h : Handle} {c : Solo σ}

theorem Owned.kept (howned : d.Owned) (hat : d.toPlane.At h c) : d.Kept h c := by
  refine ⟨hat, ?_⟩
  rintro l hl rfl
  refine howned.disjoint_union.2.1 l hl ?_
  rw [← Assoc.get?_isSome_iff, hat.bridge]
  rfl

/-- A new listener gets another handle. -/
theorem Kept.addListener (hkept : d.Kept h c) {port : UInt16} {sockets : SocketSet σ}
    {handle : Handle} (hadd : addListener alloc api d.sockets port = .ok (sockets, handle)) :
    h ≠ handle ∧ sockets.live.get? h = some c.socket := by
  obtain ⟨next, fresh, hfresh, hunused, hlive⟩ := addListener_fresh alloc api d.sockets port
  rw [hfresh] at hadd
  cases hadd
  have hne : h ≠ handle := by
    rintro rfl
    refine hunused ?_
    rw [SocketSet.handles, ← Assoc.get?_isSome_iff, hkept.conn.socket]
    rfl
  rw [hlive, Function.update_of_ne hne]
  exact ⟨hne, hkept.conn.socket⟩

theorem Kept.listenFor (hkept : d.Kept h c) {t : Target}
    (hlisten : d.listenFor alloc api t = .ok d') : d'.Kept h c := by
  obtain ⟨⟨sockets, handle⟩, hadd, hreturn⟩ := bind_eq_ok_iff.mp hlisten
  cases hreturn
  obtain ⟨hne, hsocket⟩ := hkept.addListener alloc api hadd
  refine ⟨⟨hsocket, hkept.conn.bridge⟩, ?_⟩
  intro l hl
  rcases List.mem_append.mp hl with hold | hnew
  · exact hkept.clear l hold
  · rw [List.mem_singleton.mp hnew]
    exact hne.symm

/-- The listener that is taken out, and what is left. -/
theorem Kept.removeAt (hkept : d.Kept h c) {i : Nat} {l : Listener} {rest : List Listener}
    (hat : d.removeAt i = .ok (l, rest)) : l.handle ≠ h ∧ ∀ l' ∈ rest, l'.handle ≠ h := by
  unfold DataPlane.removeAt at hat
  split at hat
  · cases hat
  · next removed hremove =>
      cases hat
      have htake := (swapRemove_some hremove).2.1
      refine ⟨hkept.clear l (htake.mem_iff.mpr List.mem_cons_self), ?_⟩
      intro l' hl'
      exact hkept.clear l' (htake.mem_iff.mpr (List.mem_cons_of_mem _ hl'))

theorem Kept.dropLoop (hkept : d.Kept h c) {port : UInt16} {fuel : Nat}
    (hdrop : dropLoop port fuel d = .ok d') : d'.Kept h c := by
  induction fuel generalizing d with
  | zero =>
      cases hdrop
      exact hkept
  | succ fuel ih =>
      unfold DataPlane.dropLoop at hdrop
      split at hdrop
      · cases hdrop
        exact hkept
      · obtain ⟨⟨l, rest⟩, hat, hfree⟩ := bind_eq_ok_iff.mp hdrop
        obtain ⟨sockets, hremove, hloop⟩ := bind_eq_ok_iff.mp hfree
        obtain ⟨hne, hclear⟩ := hkept.removeAt hat
        have hnext : Kept h c { d with sockets := sockets, listeners := rest } := by
          refine ⟨⟨?_, hkept.conn.bridge⟩, hclear⟩
          rw [SocketSet.remove_live hremove, Function.update_of_ne hne.symm]
          exact hkept.conn.socket
        exact ih hnext hloop

theorem Kept.upsertTarget (hkept : d.Kept h c) {t : Target}
    (hupsert : d.upsertTarget alloc api t = .ok d') : d'.Kept h c := by
  unfold DataPlane.upsertTarget at hupsert
  split at hupsert
  · cases hupsert
    refine ⟨hkept.conn, ?_⟩
    -- redirecting a listener keeps its handle
    have hhandles := map_key_modifyFirst (p := fun l => decide (l.port = t.listenPort))
      (redirect_handle t.destination) d.listeners
    intro l hl hsame
    have hmem : h ∈ d.listeners.map Listener.handle := by
      rw [← hhandles, ← hsame]
      exact List.mem_map_of_mem hl
    obtain ⟨l', hl', hhandle⟩ := List.mem_map.mp hmem
    exact hkept.clear l' hl' hhandle
  · exact hkept.listenFor alloc api hupsert

theorem Kept.promote (hkept : d.Kept h c) {found : Nat × UInt16}
    (hpromote : d.promote alloc api found = .ok d') : d'.Kept h c := by
  obtain ⟨⟨l, rest⟩, hat, hstart⟩ := bind_eq_ok_iff.mp hpromote
  obtain ⟨⟨sockets, handle⟩, hadd, hreturn⟩ := bind_eq_ok_iff.mp hstart
  cases hreturn
  obtain ⟨hne, hclear⟩ := hkept.removeAt hat
  obtain ⟨hnew, hsocket⟩ := hkept.addListener alloc api hadd
  refine ⟨⟨hsocket, ?_⟩, ?_⟩
  · rw [Assoc.get?_insert, Function.update_of_ne hne.symm]
    exact hkept.conn.bridge
  · intro l' hl'
    rcases List.mem_append.mp hl' with hold | hlast
    · exact hclear l' hold
    · rw [List.mem_singleton.mp hlast]
      exact hnew.symm

theorem Kept.loop {α : Type} {body : DataPlane σ → α → Except Fault (DataPlane σ)}
    (hbody : ∀ a d d', Kept h c d → body d a = .ok d' → Kept h c d') {items : List α}
    (hkept : d.Kept h c) (hloop : items.foldlM body d = .ok d') : d'.Kept h c := by
  refine foldlM_keeps (fun _ => Kept h c) ?_ hkept hloop
  intro a _ d d' hkept hstep
  exact hbody a d d' hkept hstep

/-- An operation is for each connection what it means for it alone. -/
theorem apply_obeys (howned : d.Owned) {op : Op σ} (happly : d.apply alloc api op = .ok d') :
    Plane.Obeys api h d.toPlane (op.own h).toList d'.toPlane := by
  cases op with
  | addTargets specs =>
      refine Plane.Untouched.obeys api ?_
      intro c hat
      refine ((howned.kept hat).loop ?_ happly).conn
      intro spec d d' hkept hstep
      unfold addTarget at hstep
      split at hstep
      · cases hstep
        exact hkept
      · split at hstep
        · cases hstep
          exact hkept
        · exact hkept.listenFor alloc api hstep
  | removeTargets specs =>
      refine Plane.Untouched.obeys api ?_
      intro c hat
      refine ((howned.kept hat).loop ?_ happly).conn
      intro spec d d' hkept hstep
      unfold removeTarget at hstep
      split at hstep
      · cases hstep
        exact hkept
      · exact hkept.dropLoop hstep
  | reconcileTargets specs =>
      refine Plane.Untouched.obeys api ?_
      intro c hat
      obtain ⟨kept, hdrop, hupsert⟩ := bind_eq_ok_iff.mp happly
      have hkept := (howned.kept hat).loop (fun _ _ _ hkept hstep => hkept.dropLoop hstep) hdrop
      exact (hkept.loop (fun _ _ _ hkept hstep => hkept.upsertTarget alloc api hstep) hupsert).conn
  | acceptNew =>
      refine Plane.Untouched.obeys api ?_
      intro c hat
      obtain ⟨found, _, hloop⟩ := bind_eq_ok_iff.mp happly
      exact ((howned.kept hat).loop (fun _ _ _ hkept hstep => hkept.promote alloc api hstep)
        hloop).conn
  | shuttle order =>
      obtain ⟨⟨next, calls⟩, hshuttle, hnext⟩ := bind_eq_ok_iff.mp happly
      obtain ⟨⟨plane, made⟩, hpass, hreturn⟩ := bind_eq_ok_iff.mp hshuttle
      cases hreturn
      cases hnext
      exact Plane.shuttleAll_obeys api hpass
  | poll change =>
      cases happly
      exact Plane.poll_obeys api d.toPlane change
  | task k event =>
      cases happly
      by_cases hsame : k = h
      · subst hsame
        simp only [Op.own, if_pos, Option.toList_some]
        exact Plane.runTask_obeys api d.toPlane event
      · simp only [Op.own, if_neg hsame, Option.toList_none]
        exact (Plane.runTask_untouched d.toPlane (Ne.symm hsame) event).obeys api

theorem Op.pass_of_own {op : Op σ} (hop : op.own h = some .pass) :
    ∃ order, op.pass = some order := by
  cases op with
  | shuttle order => exact ⟨order, rfl⟩
  | task k event =>
      simp only [Op.own] at hop
      split at hop <;> cases hop
  | addTargets | removeTargets | reconcileTargets | acceptNew | poll => cases hop

theorem apply_pass {op : Op σ} {order : Plane.KeyOrder} (hpass : op.pass = some order)
    (happly : d.apply alloc api op = .ok d') :
    ∃ out, d.toPlane.shuttleAll api order = .ok out := by
  cases op <;> cases hpass
  obtain ⟨_, hshuttle, _⟩ := bind_eq_ok_iff.mp happly
  obtain ⟨out, hout, _⟩ := bind_eq_ok_iff.mp hshuttle
  exact ⟨out, hout⟩

theorem Reachable.owned {discipline : Plane.Discipline σ}
    (hreach : Reachable alloc api discipline d) : d.Owned := by
  induction hreach with
  | bringUp hup =>
      obtain ⟨d, hd, howned⟩ := bringUp_owned alloc api _
      rw [hup] at hd
      cases hd
      exact howned
  | op op _ _ step ih =>
      obtain ⟨d', hd', howned⟩ := ih.apply alloc api op
      rw [step] at hd'
      cases hd'
      exact howned

end DataPlane

end Site

namespace Olm.UserspaceBackend

variable {σ : Type} (alloc : Allocator) (api : TcpApi σ)

/-- What an operation means for the connection behind `h`. -/
def Op.own (h : Handle) : Op σ → Option (Solo.Step σ)
  | .accept _ _ => none
  | .poll change => some (.poll (change h))
  | .shuttle _ => some .pass
  | .task k event => if k = h then some (.task event) else none

/-- The pass over the bridges that an operation makes. -/
def Op.pass : Op σ → Option Plane.KeyOrder
  | .shuttle order => some order
  | _ => none

variable {b b' : UserspaceBackend σ} {h : Handle} {c : Solo σ}

/-- A connection that is originated gets another handle, and a refused one frees
its own only. -/
theorem openOutgoing_untouched {connect : Connect σ} {dest : IpAddr} {destPort : UInt16}
    (hopen : b.openOutgoing alloc api connect dest destPort = .ok b') :
    Plane.Untouched h b.toPlane b'.toPlane := by
  intro c hat
  have hne : h ≠ alloc.pick b.sockets.ticket b.sockets.handles := by
    intro hsame
    refine alloc.fresh b.sockets.ticket b.sockets.handles (hsame ▸ ?_)
    rw [SocketSet.handles, ← Assoc.get?_isSome_iff, hat.socket]
    rfl
  have hadded : (b.sockets.add alloc api.new).1.live.get? h = some c.socket := by
    rw [SocketSet.add, Assoc.get?_insert, Function.update_of_ne hne]
    exact hat.socket
  obtain ⟨s, _, hconnect⟩ := bind_eq_ok_iff.mp hopen
  split at hconnect
  · obtain ⟨sockets, hremove, hreturn⟩ := bind_eq_ok_iff.mp hconnect
    cases hreturn
    refine ⟨?_, hat.bridge⟩
    rw [SocketSet.remove_live hremove]
    exact (Function.update_of_ne hne _ _).trans hadded
  · cases hconnect
    constructor
    · rw [SocketSet.put, Assoc.get?_modify]
      exact (Function.update_of_ne hne _ _).trans hadded
    · rw [Assoc.get?_insert]
      exact (Function.update_of_ne hne _ _).trans hat.bridge

/-- An operation is for each connection what it means for it alone. -/
theorem apply_obeys {op : Op σ} (happly : b.apply alloc api op = .ok b') :
    Plane.Obeys api h b.toPlane (op.own h).toList b'.toPlane := by
  cases op with
  | accept index connect =>
      refine Plane.Untouched.obeys api ?_
      simp only [apply] at happly
      split at happly
      · cases happly
        exact Plane.untouched_of_eq rfl rfl
      · exact openOutgoing_untouched alloc api happly
  | poll change =>
      cases happly
      exact Plane.poll_obeys api b.toPlane change
  | shuttle order =>
      obtain ⟨⟨next, calls⟩, hshuttle, hnext⟩ := bind_eq_ok_iff.mp happly
      obtain ⟨⟨plane, made⟩, hpass, hreturn⟩ := bind_eq_ok_iff.mp hshuttle
      cases hreturn
      cases hnext
      exact Plane.shuttleAll_obeys api hpass
  | task k event =>
      cases happly
      by_cases hsame : k = h
      · subst hsame
        simp only [Op.own, if_pos, Option.toList_some]
        exact Plane.runTask_obeys api b.toPlane event
      · simp only [Op.own, if_neg hsame, Option.toList_none]
        exact (Plane.runTask_untouched b.toPlane (Ne.symm hsame) event).obeys api

theorem Op.pass_of_own {op : Op σ} (hop : op.own h = some .pass) :
    ∃ order, op.pass = some order := by
  cases op with
  | shuttle order => exact ⟨order, rfl⟩
  | task k event =>
      simp only [Op.own] at hop
      split at hop <;> cases hop
  | accept | poll => cases hop

theorem apply_pass {op : Op σ} {order : Plane.KeyOrder} (hpass : op.pass = some order)
    (happly : b.apply alloc api op = .ok b') :
    ∃ out, b.toPlane.shuttleAll api order = .ok out := by
  cases op <;> cases hpass
  obtain ⟨_, hshuttle, _⟩ := bind_eq_ok_iff.mp happly
  obtain ⟨out, hout, _⟩ := bind_eq_ok_iff.mp hshuttle
  exact ⟨out, hout⟩

end Olm.UserspaceBackend

namespace Proxy

/-- What the data planes of the two roles have in common: operations on a plane
that mean something for each of its connections. -/
structure Host {σ : Type} (api : TcpApi σ) where
  State : Type
  Op : Type
  plane : State → Plane σ
  apply : State → Op → Except Fault State
  own : Handle → Op → Option (Solo.Step σ)
  /-- The pass over the bridges that an operation makes. -/
  pass : Op → Option Plane.KeyOrder
  Reachable : State → Prop
  step_reachable : ∀ {d d' op}, Reachable d → apply d op = .ok d' → Reachable d'
  plane_reachable : ∀ {d}, Reachable d → Plane.Reachable api .any (plane d)
  step_obeys : ∀ {d d' op h}, Reachable d → apply d op = .ok d' →
    Plane.Obeys api h (plane d) (own h op).toList (plane d')
  pass_of_own : ∀ {op h}, own h op = some .pass → ∃ order, pass op = some order
  step_pass : ∀ {d d' op order}, pass op = some order → apply d op = .ok d' →
    ∃ out, (plane d).shuttleAll api order = .ok out

inductive Role where
  | site
  | client
  deriving DecidableEq, Repr

variable {σ : Type} (alloc : Allocator) (api : TcpApi σ)

/-- The data plane of a site, and the userspace backend of a client. -/
def Role.host : Role → Host api
  | .site =>
      { State := Site.DataPlane σ
        Op := Site.DataPlane.Op σ
        plane := Site.DataPlane.toPlane
        apply := Site.DataPlane.apply alloc api
        own := Site.DataPlane.Op.own
        pass := Site.DataPlane.Op.pass
        Reachable := Site.DataPlane.Reachable alloc api .any
        step_reachable := fun hreach step =>
          .op _ hreach (Site.DataPlane.allowed_any api _ _) step
        plane_reachable := fun hreach => hreach.toPlane
        step_obeys := fun hreach step => Site.DataPlane.apply_obeys alloc api hreach.owned step
        pass_of_own := Site.DataPlane.Op.pass_of_own
        step_pass := Site.DataPlane.apply_pass alloc api }
  | .client =>
      { State := Olm.UserspaceBackend σ
        Op := Olm.UserspaceBackend.Op σ
        plane := Olm.UserspaceBackend.toPlane
        apply := Olm.UserspaceBackend.apply alloc api
        own := Olm.UserspaceBackend.Op.own
        pass := Olm.UserspaceBackend.Op.pass
        Reachable := Olm.UserspaceBackend.Reachable alloc api .any
        step_reachable := fun hreach step =>
          .op _ hreach (Olm.UserspaceBackend.allowed_any api _ _) step
        plane_reachable := fun hreach => hreach.toPlane
        step_obeys := fun _ step => Olm.UserspaceBackend.apply_obeys alloc api step
        pass_of_own := Olm.UserspaceBackend.Op.pass_of_own
        step_pass := Olm.UserspaceBackend.apply_pass alloc api }

/-- The calls of `close` in a pass over all bridges. -/
def Plane.calls (plane : Plane σ) (order : Plane.KeyOrder) : List (Handle × Bridge) :=
  match plane.shuttleAll api order with
  | .error _ => []
  | .ok (_, calls) => calls

namespace Host

variable {api} (host : Host api)

def run (d : host.State) (ops : List host.Op) : Except Fault host.State := ops.foldlM host.apply d

/-- The calls of `close` that an operation makes. -/
def calls (d : host.State) (op : host.Op) : List (Handle × Bridge) :=
  match host.pass op with
  | none => []
  | some order => (host.plane d).calls api order

variable {host} {d d' : host.State}

/-- A pass that closes the socket of a connection reports it. -/
theorem calls_of_closed {op : host.Op} {h : Handle} {c : Solo σ}
    (hown : host.own h op = some .pass) (happly : host.apply d op = .ok d')
    (hat : (host.plane d).At h c) (hclosed : (c.bridge.service api c.socket).2.2 = true) :
    (h, (c.bridge.service api c.socket).2.1) ∈ host.calls d op := by
  obtain ⟨order, horder⟩ := host.pass_of_own hown
  obtain ⟨⟨next, made⟩, hpass⟩ := host.step_pass horder happly
  simp only [calls, horder, Plane.calls, hpass]
  exact (Plane.shuttleAll_at api hat hpass).2 hclosed

theorem calls_delivered {op : host.Op} {call : Handle × Bridge} (hreach : host.Reachable d)
    (hcall : call ∈ host.calls d op) : call.2.ledger.accepted = call.2.ledger.read := by
  simp only [calls, Plane.calls] at hcall
  split at hcall
  · cases hcall
  · split at hcall
    · cases hcall
    · next hpass =>
        exact (((host.plane_reachable hreach).streams_intact api).2 _ _ _ hpass call hcall).1

theorem run_cons {op : host.Op} {rest : List host.Op} (hrun : host.run d (op :: rest) = .ok d') :
    ∃ next, host.apply d op = .ok next ∧ host.run next rest = .ok d' := by
  rw [run, List.foldlM_cons] at hrun
  exact bind_eq_ok_iff.mp hrun

theorem filterMap_own (h : Handle) (op : host.Op) (rest : List host.Op) :
    (op :: rest).filterMap (host.own h) =
      (host.own h op).toList ++ rest.filterMap (host.own h) := by
  cases hown : host.own h op with
  | none => rw [List.filterMap_cons_none hown, Option.toList_none, List.nil_append]
  | some step => rw [List.filterMap_cons_some hown, Option.toList_some, List.singleton_append]

theorem run_obeys {ops : List host.Op} {h : Handle} (hreach : host.Reachable d)
    (hrun : host.run d ops = .ok d') :
    Plane.Obeys api h (host.plane d) (ops.filterMap (host.own h)) (host.plane d') := by
  induction ops generalizing d with
  | nil =>
      cases hrun
      exact (Plane.untouched_of_eq rfl rfl).obeys api
  | cons op rest ih =>
      obtain ⟨next, hnext, hrest⟩ := run_cons hrun
      rw [filterMap_own]
      exact (host.step_obeys hreach hnext).trans api (ih (host.step_reachable hreach hnext) hrest)

end Host

/-- In both roles and through every run, the socket and the bridge of a connection
are what the polls of its socket, the passes, and the events of its own task make
of them, up to the pass that reaps it. -/
theorem Role.connection_alone (role : Role) {d d' : (role.host alloc api).State}
    {ops : List (role.host alloc api).Op} {h : Handle} {c c' : Solo σ}
    (hreach : (role.host alloc api).Reachable d)
    (hrun : (role.host alloc api).run d ops = .ok d')
    (hat : ((role.host alloc api).plane d).At h c)
    (halone : c.run api (ops.filterMap ((role.host alloc api).own h)) = some c') :
    ((role.host alloc api).plane d').At h c' :=
  Host.run_obeys hreach hrun c c' hat halone

/-- A site with one connection that is just accepted. -/
def acceptedSite : Site.DataPlane BufferedSocket :=
  ⟨⟨⟨⟨[(0, ⟨.established, [], []⟩), (1, ⟨.listen, [], []⟩)], by simp [UniqueKeys]⟩, 2⟩,
    ⟨[(0, .new (spawnTcp "10.0.0.1:8080"))], List.nodup_singleton _⟩⟩, [⟨80, "10.0.0.1:8080", 1⟩]⟩

theorem acceptedSite_reachable :
    Site.DataPlane.Reachable .firstFree bufferedApi .any acceptedSite := by
  have hrun : Site.DataPlane.webSite.run .firstFree bufferedApi
      [.poll fun _ s => { s with state := .established }, .acceptNew] = .ok acceptedSite := rfl
  exact Site.DataPlane.Reachable.run _ _ (.bringUp Site.DataPlane.webSite_bringUp)
    (Site.DataPlane.runAllowed_any _ _ _ _) hrun

/-- A new configuration drops the target of the connection, while the target
answers with two bytes. -/
def reconfigured : List (Site.DataPlane.Op BufferedSocket) :=
  [.task 0 .connected, .reconcileTargets ["90:10.0.0.2:9090"], .task 0 (.read [72, 105]),
    .acceptNew, .task 0 .send, .task 1 .shutdown, .shuttle .inserted]

theorem Role.connection_alone_reconfigured :
    ∃ d : Site.DataPlane BufferedSocket,
      (Role.site.host .firstFree bufferedApi).run acceptedSite reconfigured = .ok d ∧
      d.toPlane.At 0 ⟨⟨.established, [], [72, 105]⟩,
        ⟨bridgeStream, [], false, ⟨[72, 105], [72, 105], [], [], false⟩⟩⟩ := by
  have hrun : (Role.site.host .firstFree bufferedApi).run acceptedSite reconfigured = .ok _ := rfl
  have hat : acceptedSite.toPlane.At 0
      ⟨⟨.established, [], []⟩, .new (spawnTcp "10.0.0.1:8080")⟩ := ⟨rfl, rfl⟩
  exact ⟨_, hrun, Role.connection_alone .firstFree bufferedApi .site acceptedSite_reachable hrun
    hat rfl⟩

end Proxy

end Newt
