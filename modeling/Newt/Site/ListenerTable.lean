import Newt.Site.Ownership
import Newt.Site.PortMap

/-! # The listeners as a map from ports to destinations

The vector of listeners is permuted all the time. With one listener for each port
it is a finite map, and every operation has a plain meaning on that map.
-/

namespace Newt.Site

open Foundation Keyed Stack Proxy

variable {σ : Type} (alloc : Allocator) (api : TcpApi σ)

namespace DataPlane

def UniquePorts (d : DataPlane σ) : Prop := UniqueKeys Listener.port d.listeners

/-- The destination of the first listener of a port. -/
def portMap (d : DataPlane σ) : PortMap :=
  fun port => (table Listener.port d.listeners port).map Listener.target

variable {d d' : DataPlane σ}

/-- The data plane has one listener for each port of the map, with its destination. -/
def Reads (d : DataPlane σ) (m : PortMap) : Prop := d.UniquePorts ∧ d.portMap = m

theorem portMap_eq_none_iff {port : UInt16} :
    d.portMap port = none ↔ table Listener.port d.listeners port = none := Option.map_eq_none_iff

theorem portMap_update {port : UInt16} {entry : Option Listener}
    (htable : table Listener.port d'.listeners =
      Function.update (table Listener.port d.listeners) port entry) :
    d'.portMap = Function.update d.portMap port (entry.map Listener.target) := by
  funext p
  unfold portMap
  rw [htable, Function.update_apply, Function.update_apply]
  split <;> rfl

/-! ## One listener -/

theorem listenFor_eq {t : Target} (hlisten : d.listenFor alloc api t = .ok d') :
    ∃ handle, d'.listeners = d.listeners ++ [⟨t.listenPort, t.destination, handle⟩] := by
  obtain ⟨⟨sockets, handle⟩, _, hreturn⟩ := bind_eq_ok_iff.mp hlisten
  cases hreturn
  exact ⟨handle, rfl⟩

theorem listenFor_table {t : Target} (hunique : d.UniquePorts)
    (habsent : table Listener.port d.listeners t.listenPort = none)
    (hlisten : d.listenFor alloc api t = .ok d') :
    d'.UniquePorts ∧ ∃ handle, table Listener.port d'.listeners =
      Function.update (table Listener.port d.listeners) t.listenPort
        (some ⟨t.listenPort, t.destination, handle⟩) := by
  obtain ⟨handle, hlisteners⟩ := listenFor_eq alloc api hlisten
  unfold UniquePorts
  rw [hlisteners]
  exact ⟨hunique.push habsent, handle, table_push habsent⟩

theorem removeAt_eq {i : Nat} {l : Listener} {rest : List Listener}
    (hremove : d.removeAt i = .ok (l, rest)) : swapRemove i d.listeners = some (l, rest) := by
  unfold removeAt at hremove
  split at hremove
  · cases hremove
  · next hswap =>
      cases hremove
      exact hswap

theorem dropLoop_table {port : UInt16} {fuel : Nat} (hunique : d.UniquePorts)
    (hfuel : d.listeners.length ≤ fuel) (hdrop : dropLoop port fuel d = .ok d') :
    d'.UniquePorts ∧ table Listener.port d'.listeners =
      Function.update (table Listener.port d.listeners) port none := by
  induction fuel generalizing d with
  | zero =>
      cases hdrop
      refine ⟨hunique, ?_⟩
      rw [List.eq_nil_of_length_eq_zero (Nat.le_zero.mp hfuel)]
      exact (Function.update_eq_self port _).symm
  | succ fuel ih =>
      unfold dropLoop at hdrop
      split at hdrop
      · next hnone =>
          have habsent : table Listener.port d.listeners port = none := by
            refine table_eq_none_iff.mpr ?_
            intro l hl
            simpa using List.findIdx?_eq_none_iff.mp hnone l hl
          cases hdrop
          refine ⟨hunique, ?_⟩
          rw [← habsent, Function.update_eq_self]
      · next i hi =>
          obtain ⟨⟨l, rest⟩, hat, hfree⟩ := bind_eq_ok_iff.mp hdrop
          obtain ⟨sockets, _, hloop⟩ := bind_eq_ok_iff.mp hfree
          obtain ⟨hget, hperm, _⟩ := swapRemove_some (removeAt_eq hat)
          -- the listener found has the port, and no other one does
          have hport : l.port = port := by
            obtain ⟨hlt, hfound, _⟩ := List.findIdx?_eq_some_iff_getElem.mp hi
            rw [List.getElem?_eq_getElem hlt] at hget
            cases hget
            simpa using hfound
          have hlength : rest.length ≤ fuel := by
            have := hperm.length_eq
            rw [List.length_cons] at this
            omega
          obtain ⟨hunique', htable⟩ := @ih { d with sockets := sockets, listeners := rest }
            (hunique.of_perm_cons hperm).2 hlength hloop
          refine ⟨hunique', ?_⟩
          rw [htable, table_of_perm_cons hunique hperm, hport, Function.update_idem]

theorem dropPort_table {port : UInt16} (hunique : d.UniquePorts)
    (hdrop : d.dropPort port = .ok d') :
    d'.UniquePorts ∧ table Listener.port d'.listeners =
      Function.update (table Listener.port d.listeners) port none :=
  dropLoop_table hunique (Nat.le_refl _) hdrop

/-! ## The calls of the control channel -/

theorem Reads.listenFor {m : PortMap} {t : Target} (hreads : d.Reads m)
    (habsent : m t.listenPort = none) (hlisten : d.listenFor alloc api t = .ok d') :
    d'.Reads (m.set t) := by
  obtain ⟨hunique, rfl⟩ := hreads
  obtain ⟨hunique', handle, htable⟩ :=
    listenFor_table alloc api hunique (portMap_eq_none_iff.mp habsent) hlisten
  exact ⟨hunique', portMap_update htable⟩

theorem Reads.addTargets {m : PortMap} {specs : List String} (hreads : d.Reads m)
    (hadd : d.addTargets alloc api specs = .ok d') : d'.Reads (m.add specs) := by
  unfold PortMap.add
  rw [PortMap.foldl_targets]
  refine foldlM_simulates Reads ?_ hreads hadd
  intro spec d m d' hreads hstep
  cases hparse : Target.parse spec with
  | none =>
      simp only [addTarget, hparse] at hstep
      cases hstep
      exact hreads
  | some t =>
      simp only [addTarget, hparse] at hstep
      have hpresent : (d.listeners.any fun l => l.port == t.listenPort) = true ↔
          m t.listenPort ≠ none := by
        rw [← hreads.2, Ne, portMap_eq_none_iff, table_eq_none_iff]
        simp
      rw [Option.elim_some]
      split at hstep
      · next hany =>
          cases hstep
          rw [if_neg (hpresent.mp hany)]
          exact hreads
      · next hany =>
          have habsent : m t.listenPort = none := by
            by_contra hsome
            exact hany (hpresent.mpr hsome)
          rw [if_pos habsent]
          exact hreads.listenFor alloc api habsent hstep

theorem Reads.dropPort {m : PortMap} {port : UInt16} (hreads : d.Reads m)
    (hdrop : d.dropPort port = .ok d') : d'.Reads (Function.update m port none) := by
  obtain ⟨hunique, rfl⟩ := hreads
  obtain ⟨hunique', htable⟩ := dropPort_table hunique hdrop
  exact ⟨hunique', portMap_update htable⟩

theorem Reads.removeTargets {m : PortMap} {specs : List String} (hreads : d.Reads m)
    (hremove : d.removeTargets specs = .ok d') : d'.Reads (m.remove specs) := by
  rw [PortMap.remove_eq_foldl, PortMap.foldl_targets]
  refine foldlM_simulates Reads ?_ hreads hremove
  intro spec d m d' hreads hstep
  cases hparse : Target.parse spec with
  | none =>
      simp only [removeTarget, hparse] at hstep
      cases hstep
      exact hreads
  | some t =>
      simp only [removeTarget, hparse] at hstep
      exact hreads.dropPort hstep

theorem redirect_port (want : String) (l : Listener) : (redirect want l).port = l.port := by
  unfold redirect
  split <;> rfl

theorem redirect_target (want : String) (l : Listener) : (redirect want l).target = want := by
  unfold redirect
  split
  · rfl
  · next hsame => exact not_not.mp hsame

theorem Reads.upsertTarget {m : PortMap} {t : Target} (hreads : d.Reads m)
    (hupsert : d.upsertTarget alloc api t = .ok d') : d'.Reads (m.set t) := by
  unfold DataPlane.upsertTarget at hupsert
  split at hupsert
  · next l hfound =>
      cases hupsert
      obtain ⟨hunique, rfl⟩ := hreads
      refine ⟨hunique.modifyFirst (redirect_port t.destination) _, ?_⟩
      have htable := table_modifyFirst (redirect_port t.destination) t.listenPort d.listeners
      refine (portMap_update htable).trans ?_
      rw [table, hfound]
      simp only [Option.map_some, redirect_target]
      rfl
  · next hfound =>
      refine hreads.listenFor alloc api ?_ hupsert
      rw [← hreads.2, portMap_eq_none_iff]
      exact hfound

/-! ## New connections -/

/-- A promotion replaces the listener at its position, and the positions before
keep theirs. -/
theorem Reads.promote {m : PortMap} {found : Nat × UInt16} {l : Listener} (hreads : d.Reads m)
    (hget : d.listeners[found.1]? = some l) (hport : l.port = found.2)
    (hpromote : d.promote alloc api found = .ok d') :
    d'.Reads m ∧ ∀ k < found.1, d'.listeners[k]? = d.listeners[k]? := by
  obtain ⟨⟨removed, rest⟩, hat, hadd⟩ := bind_eq_ok_iff.mp hpromote
  obtain ⟨⟨sockets, handle⟩, _, hreturn⟩ := bind_eq_ok_iff.mp hadd
  obtain ⟨hremoved, hperm, hbefore⟩ := swapRemove_some (removeAt_eq hat)
  obtain rfl : l = removed := Option.some.inj (hget.symm.trans hremoved)
  cases hreturn
  obtain ⟨hunique, rfl⟩ := hreads
  have hrest := hunique.of_perm_cons hperm
  have htable := table_of_perm_cons hunique hperm
  have habsent : table Listener.port rest found.2 = none := by
    rw [htable, hport, Function.update_self]
  refine ⟨⟨hrest.2.push habsent, ?_⟩, ?_⟩
  · funext port
    have hl : table Listener.port d.listeners found.2 = some l :=
      (table_eq_some_iff hunique).mpr ⟨hperm.mem_iff.mpr List.mem_cons_self, hport⟩
    unfold portMap
    rw [table_push habsent, htable, hport, Function.update_idem, Function.update_apply]
    split
    · next hsame =>
        rw [hsame, hl]
        rfl
    · rfl
  · intro k hk
    have hlt : k < rest.length := by
      have hlength := hperm.length_eq
      have hi := (List.getElem?_eq_some_iff.mp hget).1
      rw [List.length_cons] at hlength
      omega
    rw [List.getElem?_append_left hlt]
    exact hbefore k hk

theorem Reads.acceptNew {m : PortMap} (hreads : d.Reads m)
    (haccept : d.acceptNew alloc api = .ok d') : d'.Reads m := by
  obtain ⟨found, hfound, hloop⟩ := bind_eq_ok_iff.mp haccept
  obtain ⟨hsorted, hplaces⟩ := promotedFrom_spec api hfound
  -- the remaining positions lie before those already promoted, so they are untouched
  have hkeeps : d'.Reads m ∧ ([] : List (Nat × UInt16)).Pairwise (fun p q => q.1 < p.1) ∧
      ∀ p ∈ ([] : List (Nat × UInt16)), ∃ l, d'.listeners[p.1]? = some l ∧ l.port = p.2 := by
    refine foldlM_keeps (fun (rest : List (Nat × UInt16)) (now : DataPlane σ) => now.Reads m ∧
      rest.Pairwise (fun p q => q.1 < p.1) ∧
        ∀ p ∈ rest, ∃ l, now.listeners[p.1]? = some l ∧ l.port = p.2) ?_
        ⟨hreads, List.pairwise_reverse.mpr hsorted,
          fun p hp => (hplaces p (List.mem_reverse.mp hp)).2⟩ hloop
    intro p rest now next hinv hstep
    rcases hinv with ⟨hnow, hrest, hat⟩
    obtain ⟨hbefore, hrest⟩ := List.pairwise_cons.mp hrest
    obtain ⟨l, hget, hport⟩ := hat p List.mem_cons_self
    obtain ⟨hnext, hsame⟩ := hnow.promote alloc api hget hport hstep
    refine ⟨hnext, hrest, ?_⟩
    intro q hq
    rw [hsame q.1 (hbefore q hq)]
    exact hat q (List.mem_cons_of_mem _ hq)
  exact hkeeps.1

end DataPlane

end Newt.Site
