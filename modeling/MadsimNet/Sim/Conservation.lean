import MadsimNet.Sim.Provenance
import MadsimNet.Agreement

/-!
# The sim-mode network loses nothing while no waiting receiver is dropped

`Sim.Provenance` shows that what an endpoint holds of the deliveries scheduled to it, in its
pending timers, in `msgs` and in its channels, is among them. It can hold fewer: network.rs
`Endpoint::send` hands a message to the first receiver registered for its tag even if that
receiver was dropped, and the message is gone (`endpoint_cancelled_recv_loses_message`). This
module shows that this is the only way a scheduled delivery is lost. Along every run in which no
receiver is dropped while its endpoint has an entry naming it in `registered`
(`DropsUnregistered`), each endpoint holds exactly the messages of the deliveries scheduled to it,
as a multiset, and once no timer is pending they are all parked or accepted
(`network_conserves_scheduled`).

`Conserves` is the invariant: every registered receiver is alive (`AllLive` of `Agreement`), and
what each endpoint holds is a permutation of what was sent to it. `Conserves.step` shows that every
event keeps it, from `Conserves.frame` for the events that touch neither the endpoints, the timers
nor the log, `Conserves.insert`, `Conserves.send` for a scheduled delivery, and
`Conserves.updateSite` for `recv`, a drop and a timer firing. A firing timer is the one place where
the receivers matter: with every registered receiver alive, `deliver_eq_send` turns
`Endpoint::send` into tcp.rs `Mailbox::deliver`, which keeps every message it is given.
-/

set_option autoImplicit false
set_option relaxedAutoImplicit false

namespace MadsimNet

variable {Addr Data : Type}

/-- A receiver is dropped only once its endpoint has no entry in `registered` naming it. -/
def DropsUnregistered (net : Network Addr Data) : NetEvent Addr Data → Prop
  | .drop ep rx => ∀ site : Site Addr Data, net.heap[ep]? = some site →
      ∀ e ∈ site.world.mailbox.registered, e.2 ≠ rx
  | _ => True

/-- Every registered receiver is alive, and every endpoint holds, in its pending timers, its
`msgs` and its channels, exactly the messages of the deliveries scheduled to it. -/
structure Conserves (net : Network Addr Data) : Prop where
  live : ∀ (ep : EpId) (site : Site Addr Data), net.heap[ep]? = some site → AllLive site.world
  held : ∀ (ep : EpId) (site : Site Addr Data), net.heap[ep]? = some site →
    (net.held ep site).Perm (net.sentTo ep)

variable {net net' : Network Addr Data}

theorem conserves_new : Conserves (Network.new : Network Addr Data) :=
  ⟨fun _ _ h ↦ by simp [Network.new] at h, fun _ _ h ↦ by simp [Network.new] at h⟩

/-- An event that changes neither the endpoints, the timers nor the log keeps `Conserves`. -/
theorem Conserves.frame (h : Conserves net) (hheap : net'.heap = net.heap)
    (htimers : net'.timers = net.timers) (hlog : net'.log = net.log) : Conserves net' := by
  refine ⟨hheap ▸ h.live, ?_⟩
  unfold Network.held Network.sentTo
  exact hheap ▸ htimers ▸ hlog ▸ h.held

/-- An event that gives endpoint `ep` a new mailbox whose registered receivers are alive, and
leaves every endpoint holding, as a multiset, what it held, keeps `Conserves`. -/
theorem Conserves.updateSite (h : Conserves net) {ep : EpId} {site : Site Addr Data}
    (hsite : net.heap[ep]? = some site) {world : World Addr Data}
    {timers : List (EpId × Message Addr Data)} (hlive : AllLive world)
    (hheld : ((timers.filter (·.1 == ep)).map Prod.snd ++ world.mailbox.msgs ++
      accepted world.receivers).Perm (net.held ep site))
    (hother : ∀ ep', ep' ≠ ep → ((timers.filter (·.1 == ep')).map Prod.snd).Perm
      ((net.timers.filter (·.1 == ep')).map Prod.snd)) :
    Conserves { net with timers, heap := net.heap.set ep { site with world } } := by
  refine ⟨fun ep' site' hs ↦ ?_, fun ep' site' hs ↦ ?_⟩ <;>
    rcases getElem?_set_eq_some hs with ⟨rfl, rfl⟩ | ⟨hne, hs⟩
  · exact hlive
  · exact h.live ep' site' hs
  · exact hheld.trans (h.held ep' site hsite)
  · exact (((hother ep' hne).append_right _).append_right _).trans (h.held ep' site' hs)

/-- Dropping a receiver that no entry of `registered` names takes nothing from its endpoint. -/
theorem Conserves.dropReceiver (h : Conserves net) {ep : EpId} {rx : RecvId}
    (hfree : DropsUnregistered net (.drop ep rx)) : Conserves (net.dropReceiver ep rx) := by
  cases hs : net.heap[ep]? with
  | none => exact h.frame (List.modify_eq_self (List.getElem?_eq_none_iff.1 hs)) rfl rfl
  | some site =>
    have := h.updateSite hs (allLive_drop (h.live ep site hs) (hfree site hs))
      (by rw [accepted_drop]; exact List.Perm.refl _) fun _ _ ↦ .refl _
    simpa [Network.dropReceiver, modify_eq_set_of_getElem? hs] using this

/-- A firing timer moves its message into its endpoint's mailbox: the first live receiver for the
tag accepts it, or it is parked. -/
theorem Conserves.fire (h : Conserves net) (hinv : NetInv net) {timer : ℕ}
    (hf : net.fire timer = some net') : Conserves net' := by
  rcases Network.fire_eq_some hf with rfl | ⟨ep, msg, site, world, ht, hs, hsend, rfl⟩
  · exact h
  have hw := hinv.sites site (List.getElem?_mem hs)
  have hl := h.live ep site hs
  obtain ⟨w', hd, heff⟩ := deliver_effect msg site.world
  rw [← deliver_eq_send hl msg, hd, Option.some.injEq] at hsend
  subst hsend
  have hT : ∀ ep', ((net.timers.filter (·.1 == ep')).map Prod.snd).Perm
      ((((ep, msg) :: net.timers.eraseIdx timer).filter (·.1 == ep')).map Prod.snd) :=
    fun ep' ↦ ((perm_cons_eraseIdx ht).filter (·.1 == ep')).map Prod.snd
  have hmsg : (w'.mailbox.msgs ++ accepted w'.receivers).Perm
      (msg :: (site.world.mailbox.msgs ++ accepted site.world.receivers)) := by
    refine (hw.deliver_stepOk heff).conserve.trans ?_
    rw [delivered_deliver]
    exact List.perm_append_singleton _ _
  refine h.updateSite hs (allLive_deliverEffect hw hl heff) ?_ fun ep' hne ↦ ?_
  · simp only [Network.held, List.append_assoc]
    refine ((hmsg.append_left _).trans List.perm_middle).trans ?_
    simpa using (hT ep).symm.append_right _
  · simpa [beq_false_of_ne (Ne.symm hne)] using (hT ep').symm

section Events

variable [DecidableEq Addr]

/-- `insert` of a new address allocates an endpoint with nothing scheduled to it. -/
theorem Conserves.insert (h : Conserves net) (hinv : NetInv net) (target : Addr) :
    Conserves (net.insert target) := by
  unfold Network.insert
  split
  · exact h
  · refine ⟨fun ep site hs ↦ ?_, fun ep site hs ↦ ?_⟩ <;>
      rcases getElem?_append_singleton_eq_some hs with hs | ⟨rfl, rfl⟩
    · exact h.live ep site hs
    · simp [AllLive, World.empty]
    · exact h.held ep site hs
    · have htimers : net.timers.filter (·.1 == net.heap.length) = [] :=
        List.filter_eq_nil_iff.2 fun t ht h ↦
          Nat.ne_of_lt (hinv.timers_site t ht) (beq_iff_eq.1 h)
      have hlog : net.log.filter (·.ep == net.heap.length) = [] :=
        List.filter_eq_nil_iff.2 fun r hr h ↦ by
          obtain ⟨site, hs, -⟩ := hinv.log_site r hr
          rw [beq_iff_eq.1 h, List.getElem?_eq_none_iff.2 le_rfl] at hs
          exact nomatch hs
      simp [Network.held, Network.sentTo, htimers, hlog, accepted, World.empty]

/-- A `send` that schedules a delivery adds its message both to what the destination's endpoint
holds and to what was sent to it. -/
theorem Conserves.send (h : Conserves net) {src dst : Addr} {tag : UInt64} {data : Data}
    {loss : Bool} (hs : net.send src dst tag data loss = some net') : Conserves net' := by
  obtain ⟨-, ⟨-, rfl⟩ | ⟨ep, -, -, -, -, rfl⟩⟩ := Network.send_eq_some hs
  · exact h
  refine ⟨h.live, fun ep' site' hs' ↦ ?_⟩
  have hold := h.held ep' site' hs'
  by_cases hep : ep = ep'
  · subst hep
    simp only [Network.held, Network.sentTo, List.filter_append, List.filter_singleton,
      beq_self_eq_true, cond_true, List.map_append, List.map_singleton] at hold ⊢
    refine List.Perm.trans ?_ (hold.append_right _)
    simp only [List.append_assoc, List.perm_append_left_iff]
    exact List.perm_append_comm.trans (.of_eq (List.append_assoc _ _ _))
  · have hne : (ep == ep') = false := beq_false_of_ne hep
    simpa [Network.held, Network.sentTo, List.filter_append, List.filter_singleton, hne]
      using hold

/-- `recv` moves a parked message into a new channel or registers it. -/
theorem Conserves.recv (h : Conserves net) (hinv : NetInv net) {dst : Addr} {tag : UInt64}
    {res : Network Addr Data × EpId × RecvId} (hr : net.recv dst tag = some res) :
    Conserves res.1 := by
  obtain ⟨site, world, -, hs, hrecv, hres⟩ := Network.recv_eq_some hr
  rw [hres]
  have hw := hinv.sites site (List.getElem?_mem hs)
  obtain ⟨w', hstep, hok⟩ := recv_stepOk site.world tag
  have hr' : Mailbox.takeOrRegister tag site.world = some (world, res.2.2) := hrecv
  simp only [Mailbox.step, Mailbox.recv, hr', Option.map_some', Option.some.injEq] at hstep
  subst hstep
  refine h.updateSite hs (allLive_takeOrRegister hw (h.live _ _ hs) hr') ?_ fun _ _ ↦ .refl _
  simpa only [Network.held, List.append_assoc, delivered_recv, List.append_nil] using
    hok.conserve.append_left _

/-- Every event the run condition allows keeps `Conserves`. -/
theorem Conserves.step (h : Conserves net) (hinv : NetInv net) {e : NetEvent Addr Data}
    (hok : DropsUnregistered net e) (hs : net.step e = some net') : Conserves net' := by
  obtain ⟨net'', happ, rfl⟩ := Option.map_eq_some'.1 hs
  suffices Conserves net'' from this.frame rfl rfl rfl
  cases e with
  | insert target => cases happ; exact h.insert hinv target
  | remove target => cases happ; exact h.frame rfl rfl rfl
  | clog target => obtain rfl := Network.clog_eq_some happ; exact h.frame rfl rfl rfl
  | unclog target => obtain rfl := Network.unclog_eq_some happ; exact h.frame rfl rfl rfl
  | updateConfig config => cases happ; exact h.frame rfl rfl rfl
  | send src dst tag data loss => exact h.send happ
  | recv dst tag =>
    obtain ⟨res, hres, rfl⟩ := Option.map_eq_some'.1 happ
    exact h.recv hinv hres
  | drop ep rx => cases happ; exact h.dropReceiver hok
  | fire timer => exact h.fire hinv happ

/-- Along every run of the sim-mode network in which no receiver is dropped while its endpoint has
an entry naming it in `registered`: the log lists exactly the sends of the run that scheduled a
delivery, and every endpoint holds, in its pending timers, in `msgs` and in its channels, exactly
the messages of those scheduled to it, as a multiset, so that none is lost or duplicated; once no
timer is pending, they are all parked or accepted. -/
theorem network_conserves_scheduled (evs : List (NetEvent Addr Data))
    (hdrops : StepsMeet Network.step Network.new DropsUnregistered evs)
    {net : Network Addr Data} (hrun : Network.run evs = some net) :
    (∀ r, r ∈ net.log ↔ Scheduled evs r) ∧
      ∀ (ep : EpId) (site : Site Addr Data), net.heap[ep]? = some site →
        (net.held ep site).Perm (net.sentTo ep) ∧
        (net.timers = [] →
          (site.world.mailbox.msgs ++ accepted site.world.receivers).Perm (net.sentTo ep)) := by
  have h := run_induction_of_stepsMeet (fun _ s ↦ NetInv s ∧ Conserves s)
    ⟨netInv_new, conserves_new⟩ (fun _ _ _ _ ⟨hinv, hc⟩ hok hs ↦ ⟨hinv.step hs, hc.step hinv hok hs⟩)
    evs net hdrops hrun
  refine ⟨(runInv_of_run hrun).log, fun ep site hs ↦ ⟨h.2.held ep site hs, fun hnil ↦ ?_⟩⟩
  simpa [Network.held, hnil] using h.2.held ep site hs

/-- `recv(0, 1)` waits at address 0, and a send from address 1 to it is scheduled and fires. -/
theorem network_conserves_scheduled_one_delivery :
    let evs : List (NetEvent ℕ ℕ) := [.insert 0, .insert 1, .recv 0 1, .send 1 0 1 7 false, .fire 0]
    StepsMeet Network.step Network.new DropsUnregistered evs ∧
      ∃ net, Network.run evs = some net ∧
        ((∀ r, r ∈ net.log ↔ Scheduled evs r) ∧
          ∀ (ep : EpId) (site : Site ℕ ℕ), net.heap[ep]? = some site →
            (net.held ep site).Perm (net.sentTo ep) ∧
            (net.timers = [] →
              (site.world.mailbox.msgs ++ accepted site.world.receivers).Perm
                (net.sentTo ep))) := by
  intro evs
  have hdrops : StepsMeet Network.step Network.new DropsUnregistered evs := by
    refine ((((StepsMeet.nil.snoc ?_).snoc ?_).snoc ?_).snoc ?_).snoc ?_ <;> intros <;> trivial
  exact ⟨hdrops, _, rfl, network_conserves_scheduled evs hdrops rfl⟩

end Events

end MadsimNet
