import MadsimNet.Sim.Network
import MadsimNet.Safety

/-!
# Where the messages of the sim-mode network come from

`NetInv` is what every state of a run satisfies: each endpoint's mailbox keeps the invariant
`Inv` of `Safety`, the table, the timers and the log name allocated endpoints, the log names each
call once, `msg_count` is the length of the log modulo `UInt64.size` (`2 ^ 64`), and for every
endpoint the messages its pending timers carry, those parked in its mailbox and those its
channels accepted are, as a multiset, some of the messages of the sends that scheduled a delivery
to it
(`Network.held`, `Network.sentTo`). `NetInv.step` shows that every event keeps it, from the
operations' lemmas `NetInv.insert`, `NetInv.remove`, `NetInv.send`, `NetInv.updateSite` (for
`recv`, drops and timers) and `NetInv.tick`.

`Network.Schedules` says when one event on one state is a `send` that schedules a delivery, and
`Scheduled` says it of a call of a run, from the events alone; `Network.apply_log` shows that an
event adds to the ghost log exactly the delivery it schedules. `Opened` says that a channel was
returned by a `recv` call of the run, and `Network.apply_site` what one event may do to the
channels of an endpoint. `RunInv` gathers what every run satisfies: the invariant, the log
listing exactly the scheduled deliveries, and every channel opened by a `recv` on its endpoint's
address with its tag; `RunInv.snoc` is its step lemma and `runInv_of_run` the run lemma.

`network_messages_come_from_sends` assembles these for every run: every message a channel
accepted is matched to its own scheduled send to the channel's endpoint, with that send's tag,
source and data, made to the address whose `insert` allocated the endpoint, and `msg_count`
counts the scheduled sends modulo `2 ^ 64`. `msg_count_wraps` is a run with `2 ^ 64` scheduled
deliveries and the counter back at zero: `stat.msg_count` is a `u64` and `+= 1` wraps in a build
without overflow checks (with them, that send panics).

`Network.Panics` lists the calls network.rs panics on, from its `assert!`s, its indexing of the
table and the two draws of `send` (`Network.SendPanics`). `network_panics_only_at_asserts` shows,
from `NetInv.step_eq_none_iff`, that along every run an event panics exactly on those: the timers
only name allocated endpoints, and neither `Endpoint::send` nor the `unwrap` in `Endpoint::recv`
ever fails.
-/

set_option autoImplicit false
set_option relaxedAutoImplicit false

namespace MadsimNet

variable {Addr Data : Type}

theorem perm_cons_eraseIdx {α : Type} {l : List α} {i : ℕ} {a : α} (h : l[i]? = some a) :
    l.Perm (a :: l.eraseIdx i) := by
  obtain ⟨pre, post, rfl, rfl⟩ := exists_append_cons_of_getElem?_eq_some h
  simp [List.eraseIdx_append_of_length_le le_rfl]

theorem subperm_append {α : Type} {l₁ l₂ l₃ l₄ : List α} (h₁ : l₁.Subperm l₂) (h₂ : l₃.Subperm l₄) :
    (l₁ ++ l₃).Subperm (l₂ ++ l₄) :=
  ((List.subperm_append_right l₃).2 h₁).trans ((List.subperm_append_left l₂).2 h₂)

namespace Network

/-- What endpoint `ep` holds of the deliveries scheduled to it: the messages of its pending
timers, those parked in its mailbox, and those its channels accepted. -/
def held (net : Network Addr Data) (ep : EpId) (site : Site Addr Data) : List (Message Addr Data) :=
  (net.timers.filter (·.1 == ep)).map Prod.snd ++ site.world.mailbox.msgs ++
    accepted site.world.receivers

/-- The messages of the sends that scheduled a delivery to endpoint `ep`. -/
def sentTo (net : Network Addr Data) (ep : EpId) : List (Message Addr Data) :=
  (net.log.filter (·.ep == ep)).map SendRecord.message

end Network

/-- What every state of a run satisfies. -/
structure NetInv (net : Network Addr Data) : Prop where
  sites : ∀ site ∈ net.heap, Inv site.world
  endpoints_site : ∀ p ∈ net.endpoints, ∃ site, net.heap[p.2]? = some site ∧ site.addr = p.1
  timers_site : ∀ t ∈ net.timers, t.1 < net.heap.length
  log_site : ∀ r ∈ net.log, ∃ site, net.heap[r.ep]? = some site ∧ site.addr = r.dst
  log_call : ∀ r ∈ net.log, r.call < net.clock
  log_nodup : (net.log.map SendRecord.call).Nodup
  held : ∀ ep site, net.heap[ep]? = some site → (net.held ep site).Subperm (net.sentTo ep)
  count : net.msgCount.toNat = net.log.length % UInt64.size

variable {net net' : Network Addr Data}

theorem netInv_new : NetInv (Network.new : Network Addr Data) :=
  ⟨by simp [Network.new], by simp [Network.new], by simp [Network.new], by simp [Network.new],
    by simp [Network.new], by simp [Network.new], by simp [Network.new], rfl⟩

/-- A step that only shrinks the table or changes the clogged set keeps the invariant. -/
theorem NetInv.frame (hinv : NetInv net) (hheap : net'.heap = net.heap)
    (htimers : net'.timers = net.timers) (hlog : net'.log = net.log)
    (hclock : net'.clock = net.clock) (hcount : net'.msgCount = net.msgCount)
    (hend : ∀ p ∈ net'.endpoints, p ∈ net.endpoints) : NetInv net' where
  sites := hheap ▸ hinv.sites
  endpoints_site p hp := hheap ▸ hinv.endpoints_site p (hend p hp)
  timers_site := hheap ▸ htimers ▸ hinv.timers_site
  log_site := hheap ▸ hlog ▸ hinv.log_site
  log_call := hclock ▸ hlog ▸ hinv.log_call
  log_nodup := hlog ▸ hinv.log_nodup
  held := by
    unfold Network.held Network.sentTo
    exact hheap ▸ htimers ▸ hlog ▸ hinv.held
  count := hcount ▸ hlog ▸ hinv.count

/-- The ghost clock ticks. -/
theorem NetInv.tick (hinv : NetInv net) : NetInv { net with clock := net.clock + 1 } :=
  { hinv with log_call := fun r hr ↦ Nat.lt_succ_of_lt (hinv.log_call r hr) }

/-- A delivery into a mailbox adds at most its message to those parked and accepted. -/
theorem send_conserves {w w' : World Addr Data} {m : Message Addr Data} (hw : Inv w)
    (h : Endpoint.send m w = some w') :
    (w'.mailbox.msgs ++ accepted w'.receivers).Subperm
      (m :: (w.mailbox.msgs ++ accepted w.receivers)) := by
  obtain ⟨w'', h', hcase⟩ := send_spec m w
  rw [h', Option.some.injEq] at h
  subst h
  rcases hcase with ⟨pre, rx, rest, hreg, -, hmb, ⟨r, hrx, -, hrecv⟩ | ⟨-, hrecv⟩⟩ | ⟨-, rfl⟩
  · obtain ⟨r', hr', -, hempty⟩ := hw.registered_open (m.tag, rx) (by simp [hreg])
    rw [hrx, Option.some.injEq] at hr'
    subst hr'
    rw [hmb, hrecv]
    refine (((perm_accepted_set_value hrx hempty m).append_left _).trans ?_).subperm
    simpa using List.perm_append_singleton m (w.mailbox.msgs ++ accepted w.receivers)
  · rw [hmb, hrecv]
    exact (List.sublist_cons_self _ _).subperm
  · simpa using List.perm_middle.subperm

/-- A delivery into a mailbox keeps the tags of its channels. -/
theorem send_tags {w w' : World Addr Data} {m : Message Addr Data}
    (h : Endpoint.send m w = some w') :
    w'.receivers.map Receiver.tag = w.receivers.map Receiver.tag := by
  obtain ⟨w'', h', hcase⟩ := send_spec m w
  rw [h', Option.some.injEq] at h
  subst h
  rcases hcase with ⟨-, rx, -, -, -, -, ⟨r, hrx, -, hrecv⟩ | ⟨-, hrecv⟩⟩ | ⟨-, rfl⟩
  · rw [hrecv, map_tag_set_value _ _ _ _ hrx]
  · rw [hrecv]
  · rfl

theorem toNat_add_one (a : UInt64) : (a + 1).toNat = (a.toNat + 1) % UInt64.size := by
  simp [UInt64.toNat, UInt64.add_def]

/-- An event that gives one allocated endpoint a new mailbox and at most removes timers keeps the
invariant, if the new mailbox keeps `Inv` and the endpoint holds only what it held before. -/
theorem NetInv.updateSite (hinv : NetInv net) {ep : EpId} {site : Site Addr Data}
    (hsite : net.heap[ep]? = some site) {world : World Addr Data}
    {timers : List (EpId × Message Addr Data)} (hw : Inv world)
    (htimers : timers.Sublist net.timers)
    (hheld : ((timers.filter (·.1 == ep)).map Prod.snd ++ world.mailbox.msgs ++
      accepted world.receivers).Subperm (net.held ep site)) :
    NetInv { net with timers, heap := net.heap.set ep { site with world } } := by
  have hkeep : ∀ {ep' : EpId} {site' : Site Addr Data}, net.heap[ep']? = some site' →
      ∃ site'' : Site Addr Data, (net.heap.set ep { site with world })[ep']? = some site'' ∧
        site''.addr = site'.addr := by
    intro ep' site' h
    by_cases he : ep = ep'
    · subst he
      rw [hsite, Option.some.injEq] at h
      exact ⟨_, List.getElem?_set_self (List.getElem?_eq_some_iff.1 hsite).1, h ▸ rfl⟩
    · exact ⟨site', by rwa [List.getElem?_set_ne he], rfl⟩
  refine ⟨fun s hs ↦ ?_, fun p hp ↦ ?_, fun t ht ↦ ?_, fun r hr ↦ ?_, hinv.log_call,
    hinv.log_nodup, fun ep' site' hs ↦ ?_, hinv.count⟩
  · rcases List.mem_or_eq_of_mem_set hs with hs | rfl
    · exact hinv.sites s hs
    · exact hw
  · obtain ⟨s, hs, ha⟩ := hinv.endpoints_site p hp
    obtain ⟨s', hs', ha'⟩ := hkeep hs
    exact ⟨s', hs', ha'.trans ha⟩
  · simpa using hinv.timers_site t (htimers.subset ht)
  · obtain ⟨s, hs, ha⟩ := hinv.log_site r hr
    obtain ⟨s', hs', ha'⟩ := hkeep hs
    exact ⟨s', hs', ha'.trans ha⟩
  · rcases getElem?_set_eq_some hs with ⟨rfl, rfl⟩ | ⟨-, hs⟩
    · exact hheld.trans (hinv.held ep' site hsite)
    · refine List.Subperm.trans ?_ (hinv.held ep' site' hs)
      exact (((htimers.filter _).map _).append_right _ |>.append_right _).subperm

/-- The specification of a timer firing: nothing happens if there is no such timer; otherwise
`Endpoint::send` on the endpoint it holds, and the timer is gone. -/
theorem Network.fire_eq_some {timer : ℕ} (h : net.fire timer = some net') :
    net' = net ∨ ∃ ep msg site world, net.timers[timer]? = some (ep, msg) ∧
      net.heap[ep]? = some site ∧ Endpoint.send msg site.world = some world ∧
      net' = { net with
        timers := net.timers.eraseIdx timer
        heap := net.heap.set ep { site with world } } := by
  unfold Network.fire at h
  split at h
  · exact .inl (Option.some.inj h).symm
  · rename_i ep msg ht
    obtain ⟨site, hs, h⟩ := Option.bind_eq_some.1 h
    obtain ⟨world, hw, h⟩ := Option.bind_eq_some.1 h
    exact .inr ⟨ep, msg, site, world, ht, hs, hw, (Option.some.inj h).symm⟩

theorem NetInv.dropReceiver (hinv : NetInv net) (ep : EpId) (rx : RecvId) :
    NetInv (net.dropReceiver ep rx) := by
  cases hs : net.heap[ep]? with
  | none =>
    refine hinv.frame ?_ rfl rfl rfl rfl fun _ hp ↦ hp
    exact List.modify_eq_self (List.getElem?_eq_none_iff.1 hs)
  | some site =>
    have hw := hinv.sites site (List.getElem?_mem hs)
    have := hinv.updateSite hs (hw.drop rx) (List.Sublist.refl _)
      (by rw [accepted_drop]; exact List.Subperm.refl _)
    simpa [Network.dropReceiver, modify_eq_set_of_getElem? hs] using this

theorem NetInv.fire (hinv : NetInv net) {timer : ℕ} (h : net.fire timer = some net') :
    NetInv net' := by
  obtain rfl | ⟨ep, msg, site, world, ht, hs, hsend, rfl⟩ := Network.fire_eq_some h
  · exact hinv
  have hw := hinv.sites site (List.getElem?_mem hs)
  refine hinv.updateSite hs (hw.send hsend) (List.eraseIdx_sublist _ _) ?_
  have hT : ((net.timers.filter (·.1 == ep)).map Prod.snd).Perm
      (msg :: ((net.timers.eraseIdx timer).filter (·.1 == ep)).map Prod.snd) := by
    simpa using ((perm_cons_eraseIdx ht).filter (·.1 == ep)).map Prod.snd
  simp only [Network.held, List.append_assoc]
  refine List.Subperm.trans ?_ ((List.perm_middle.trans (hT.symm.append_right _)).subperm)
  exact (List.subperm_append_left _).2 (send_conserves hw hsend)

variable [DecidableEq Addr]

theorem NetInv.lookup_site (hinv : NetInv net) {a : Addr} {ep : EpId}
    (h : net.lookup a = some ep) : ∃ site, net.heap[ep]? = some site ∧ site.addr = a :=
  hinv.endpoints_site _ (mem_of_lookup_eq_some h)

/-- The specification of `Network::send`: it panics unless the source is in the table, and
either leaves the network as it is or schedules one delivery. -/
theorem Network.send_eq_some {src dst : Addr} {tag : UInt64} {data : Data} {loss : Bool}
    (h : net.send src dst tag data loss = some net') :
    (net.lookup src).isSome ∧
      ((∀ ep, net.lookup dst = some ep → src ∈ net.clogged ∨ dst ∈ net.clogged ∨ loss = true) ∧
          net' = net ∨
        ∃ ep, net.lookup dst = some ep ∧ src ∉ net.clogged ∧ dst ∉ net.clogged ∧ loss = false ∧
          net' = { net with
            timers := net.timers ++ [(ep, ⟨tag, data, src⟩)]
            msgCount := net.msgCount + 1
            log := net.log ++ [⟨net.clock, src, dst, tag, data, ep⟩] }) := by
  unfold Network.send at h
  by_cases hsrc : (net.lookup src).isSome
  · refine ⟨hsrc, ?_⟩
    cases hdst : net.lookup dst with
    | none =>
      simp only [hdst, guard, hsrc, if_true] at h
      exact .inl ⟨fun _ hd ↦ (nomatch hd), (Option.some.inj h).symm⟩
    | some ep =>
      simp only [hdst, guard, hsrc, if_true] at h
      split_ifs at h with hc hr hloss hl <;> simp only [Option.pure_def, Option.bind_eq_bind,
        Option.some_bind, Option.none_bind, Option.some.injEq, failure, reduceCtorEq] at h
      · exact .inl ⟨fun _ _ ↦ hc.elim .inl (.inr ∘ .inl), h.symm⟩
      · exact .inl ⟨fun _ _ ↦ .inr (.inr hloss), h.symm⟩
      · simp only [not_or] at hc
        exact .inr ⟨ep, rfl, hc.1, hc.2, by simpa using hloss, h.symm⟩
  · simp [guard, hsrc, failure] at h

theorem Network.clog_eq_some {target : Addr} (h : net.clog target = some net') :
    net' = { net with
      clogged := if target ∈ net.clogged then net.clogged else net.clogged ++ [target] } := by
  unfold Network.clog at h
  by_cases hk : (net.lookup target).isSome <;> simp [guard, hk, failure] at h
  exact h.symm

theorem Network.unclog_eq_some {target : Addr} (h : net.unclog target = some net') :
    net' = { net with clogged := net.clogged.filter (· != target) } := by
  unfold Network.unclog at h
  by_cases hk : (net.lookup target).isSome <;> simp [guard, hk, failure] at h
  exact h.symm

theorem NetInv.insert (hinv : NetInv net) (target : Addr) : NetInv (net.insert target) := by
  unfold Network.insert
  split
  · exact hinv
  · have hold : ∀ {ep site}, net.heap[ep]? = some site →
        (net.heap ++ [⟨target, World.empty⟩])[ep]? = some site := fun h ↦
      (List.getElem?_append_left (List.getElem?_eq_some_iff.1 h).1).trans h
    refine ⟨fun site hs ↦ ?_, fun p hp ↦ ?_, fun t ht ↦ ?_, fun r hr ↦ ?_, hinv.log_call,
      hinv.log_nodup, fun ep site hs ↦ ?_, hinv.count⟩
    · rcases List.mem_append.1 hs with h | h
      · exact hinv.sites site h
      · rw [List.mem_singleton.1 h]
        exact inv_empty
    · rcases List.mem_append.1 hp with h | h
      · obtain ⟨site, hs, ha⟩ := hinv.endpoints_site p h
        exact ⟨site, hold hs, ha⟩
      · rw [List.mem_singleton.1 h]
        exact ⟨⟨target, World.empty⟩, by simp, rfl⟩
    · simpa using Nat.lt_succ_of_lt (hinv.timers_site t ht)
    · obtain ⟨site, hs, ha⟩ := hinv.log_site r hr
      exact ⟨site, hold hs, ha⟩
    · rcases getElem?_append_singleton_eq_some hs with h | ⟨rfl, rfl⟩
      · exact hinv.held ep site h
      · have hnil : net.timers.filter (·.1 == net.heap.length) = [] :=
          List.filter_eq_nil_iff.2 fun t ht h ↦
            Nat.ne_of_lt (hinv.timers_site t ht) (beq_iff_eq.1 h)
        simp [Network.held, hnil, accepted, World.empty]

theorem NetInv.remove (hinv : NetInv net) (target : Addr) : NetInv (net.remove target) :=
  hinv.frame rfl rfl rfl rfl rfl fun _ hp ↦ List.mem_of_mem_filter hp

theorem NetInv.clog (hinv : NetInv net) {target : Addr} (h : net.clog target = some net') :
    NetInv net' :=
  Network.clog_eq_some h ▸ hinv.frame rfl rfl rfl rfl rfl fun _ hp ↦ hp

theorem NetInv.unclog (hinv : NetInv net) {target : Addr} (h : net.unclog target = some net') :
    NetInv net' :=
  Network.unclog_eq_some h ▸ hinv.frame rfl rfl rfl rfl rfl fun _ hp ↦ hp

/-- A `send` keeps the invariant once the clock ticks: a scheduled delivery adds its message both
to what its endpoint holds and to what was sent to it. -/
theorem NetInv.send (hinv : NetInv net) {src dst : Addr} {tag : UInt64} {data : Data}
    {loss : Bool} (h : net.send src dst tag data loss = some net') :
    NetInv { net' with clock := net'.clock + 1 } := by
  obtain ⟨-, ⟨-, rfl⟩ | ⟨ep, hdst, -, -, -, rfl⟩⟩ := Network.send_eq_some h
  · exact hinv.tick
  obtain ⟨site, hsite, haddr⟩ := hinv.lookup_site hdst
  refine ⟨hinv.sites, hinv.endpoints_site, fun t ht ↦ ?_, fun r hr ↦ ?_, fun r hr ↦ ?_, ?_,
    fun ep' site' hs ↦ ?_, ?_⟩
  · rcases List.mem_append.1 ht with ht | ht
    · exact hinv.timers_site t ht
    · rw [List.mem_singleton.1 ht]
      exact (List.getElem?_eq_some_iff.1 hsite).1
  · rcases List.mem_append.1 hr with hr | hr
    · exact hinv.log_site r hr
    · rw [List.mem_singleton.1 hr]
      exact ⟨site, hsite, haddr⟩
  · rcases List.mem_append.1 hr with hr | hr
    · exact Nat.lt_succ_of_lt (hinv.log_call r hr)
    · rw [List.mem_singleton.1 hr]
      exact Nat.lt_succ_self _
  · simp only [List.map_append, List.map_singleton]
    refine List.nodup_append.2 ⟨hinv.log_nodup, List.nodup_singleton _, ?_⟩
    simp only [List.disjoint_singleton, List.mem_map, not_exists, not_and]
    exact fun r hr hcall ↦ Nat.ne_of_lt (hinv.log_call r hr) hcall
  · have hold := hinv.held ep' site' hs
    by_cases hep : ep = ep'
    · subst hep
      simp only [Network.held, Network.sentTo, List.filter_append, List.filter_singleton,
        beq_self_eq_true, cond_true, List.map_append, List.map_singleton] at hold ⊢
      have hnew := subperm_append hold (List.Subperm.refl [(⟨tag, data, src⟩ : Message Addr Data)])
      refine List.Subperm.trans (List.Perm.subperm ?_) hnew
      simp only [List.append_assoc, List.singleton_append, List.perm_append_left_iff]
      exact (List.perm_append_singleton _ _).symm.trans (.of_eq (List.append_assoc _ _ _))
    · have hne : (ep == ep') = false := beq_false_of_ne hep
      simpa [Network.held, Network.sentTo, List.filter_append, List.filter_singleton, hne]
        using hold
  · rw [toNat_add_one, hinv.count, List.length_append, List.length_singleton, Nat.mod_add_mod]

/-- The specification of `Network::recv`: the endpoint of `dst` opens a channel. -/
theorem Network.recv_eq_some {dst : Addr} {tag : UInt64} {res : Network Addr Data × EpId × RecvId}
    (h : net.recv dst tag = some res) :
    ∃ (site : Site Addr Data) (world : World Addr Data), net.lookup dst = some res.2.1 ∧
      net.heap[res.2.1]? = some site ∧ Endpoint.recv tag site.world = some (world, res.2.2) ∧
      res.1 = { net with heap := net.heap.set res.2.1 { site with world } } := by
  obtain ⟨ep, hep, h⟩ := Option.bind_eq_some.1 h
  obtain ⟨site, hs, h⟩ := Option.bind_eq_some.1 h
  obtain ⟨⟨world, rx⟩, hr, h⟩ := Option.bind_eq_some.1 h
  cases h
  exact ⟨site, world, hep, hs, hr, rfl⟩

theorem NetInv.recv (hinv : NetInv net) {dst : Addr} {tag : UInt64}
    {res : Network Addr Data × EpId × RecvId} (h : net.recv dst tag = some res) : NetInv res.1 := by
  obtain ⟨site, world, -, hs, hr, hres⟩ := Network.recv_eq_some h
  rw [hres]
  have hw := hinv.sites site (List.getElem?_mem hs)
  obtain ⟨w', hstep, hok⟩ := recv_stepOk site.world tag
  have hr' : Mailbox.takeOrRegister tag site.world = some (world, res.2.2) := hr
  simp only [Mailbox.step, Mailbox.recv, hr', Option.map_some', Option.some.injEq] at hstep
  subst hstep
  refine hinv.updateSite hs (hw.takeOrRegister hr) (List.Sublist.refl _) ?_
  simpa only [Network.held, List.append_assoc, delivered_recv, List.append_nil] using
    (List.subperm_append_left _).2 hok.conserve.subperm

/-- Every event keeps the invariant. -/
theorem NetInv.step (hinv : NetInv net) {e : NetEvent Addr Data} (h : net.step e = some net') :
    NetInv net' := by
  obtain ⟨net'', happ, rfl⟩ := Option.map_eq_some'.1 h
  cases e with
  | insert target => cases happ; exact (hinv.insert target).tick
  | remove target => cases happ; exact (hinv.remove target).tick
  | clog target => exact (hinv.clog happ).tick
  | unclog target => exact (hinv.unclog happ).tick
  | updateConfig config =>
    cases happ
    have hconfig : NetInv { net with config } := hinv.frame rfl rfl rfl rfl rfl fun _ h ↦ h
    exact hconfig.tick
  | send src dst tag data loss => exact hinv.send happ
  | recv dst tag =>
    obtain ⟨res, hres, rfl⟩ := Option.map_eq_some'.1 happ
    exact (hinv.recv hres).tick
  | drop ep rx => cases happ; exact (hinv.dropReceiver ep rx).tick
  | fire timer => exact (hinv.fire happ).tick

/-! ### The log of scheduled deliveries -/

namespace Network

/-- Event `e` on `net` is a `send` that schedules the delivery `r`: its arguments are those of `r`,
the loss draw is negative, the source is in the table, the destination's endpoint is `r.ep`, and
neither address is clogged. -/
def Schedules (net : Network Addr Data) (e : NetEvent Addr Data) (r : SendRecord Addr Data) :
    Prop :=
  e = .send r.src r.dst r.tag r.data false ∧ (net.lookup r.src).isSome ∧
    net.lookup r.dst = some r.ep ∧ r.src ∉ net.clogged ∧ r.dst ∉ net.clogged

instance [DecidableEq Data] (net : Network Addr Data) (e : NetEvent Addr Data)
    (r : SendRecord Addr Data) : Decidable (net.Schedules e r) :=
  inferInstanceAs (Decidable (_ ∧ _))

/-- No event moves the ghost clock, and only a `send` writes the log. -/
theorem apply_ghost {e : NetEvent Addr Data} (h : net.apply e = some net') :
    net'.clock = net.clock ∧
      (net'.log = net.log ∨ ∃ src dst tag data loss, e = .send src dst tag data loss) := by
  cases e with
  | insert target =>
    cases h
    unfold Network.insert
    split <;> exact ⟨rfl, .inl rfl⟩
  | remove target => cases h; exact ⟨rfl, .inl rfl⟩
  | clog target => rw [clog_eq_some h]; exact ⟨rfl, .inl rfl⟩
  | unclog target => rw [unclog_eq_some h]; exact ⟨rfl, .inl rfl⟩
  | updateConfig => cases h; exact ⟨rfl, .inl rfl⟩
  | send src dst tag data loss =>
    obtain ⟨-, ⟨-, rfl⟩ | ⟨ep, -, -, -, -, rfl⟩⟩ := send_eq_some h
    · exact ⟨rfl, .inl rfl⟩
    · exact ⟨rfl, .inr ⟨_, _, _, _, _, rfl⟩⟩
  | recv dst tag =>
    obtain ⟨res, hres, rfl⟩ := Option.map_eq_some'.1 h
    obtain ⟨_, _, -, -, -, hres'⟩ := recv_eq_some hres
    rw [hres']
    exact ⟨rfl, .inl rfl⟩
  | drop ep rx => cases h; exact ⟨rfl, .inl rfl⟩
  | fire timer =>
    obtain rfl | ⟨-, -, -, -, -, -, -, rfl⟩ := fire_eq_some h <;> exact ⟨rfl, .inl rfl⟩

/-- A `send` logs exactly the delivery it schedules. -/
theorem send_log {src dst : Addr} {tag : UInt64} {data : Data} {loss : Bool}
    (h : net.send src dst tag data loss = some net') (r : SendRecord Addr Data) :
    r ∈ net'.log ↔
      r ∈ net.log ∨ (r.call = net.clock ∧ net.Schedules (.send src dst tag data loss) r) := by
  obtain ⟨hsrc, ⟨hfail, rfl⟩ | ⟨ep, hdst, hs, hd, hl, rfl⟩⟩ := send_eq_some h
  · refine ⟨.inl, fun h ↦ h.resolve_right ?_⟩
    rintro ⟨-, he, -, hdst, hs, hd⟩
    obtain ⟨rfl, rfl, -, -, rfl⟩ := NetEvent.send.inj he
    rcases hfail _ hdst with h | h | h
    exacts [hs h, hd h, Bool.false_ne_true h]
  · simp only [List.mem_append, List.mem_singleton]
    refine or_congr Iff.rfl ⟨?_, ?_⟩
    · rintro rfl
      exact ⟨rfl, hl ▸ rfl, hsrc, hdst, hs, hd⟩
    · rintro ⟨hcall, he, -, hdst', -, -⟩
      obtain ⟨rfl, rfl, rfl, rfl, -⟩ := NetEvent.send.inj he
      rw [hdst, Option.some.injEq] at hdst'
      cases r
      simp_all

/-- One event adds to the log exactly the delivery it schedules. -/
theorem apply_log {e : NetEvent Addr Data} (h : net.apply e = some net')
    (r : SendRecord Addr Data) :
    r ∈ net'.log ↔ r ∈ net.log ∨ (r.call = net.clock ∧ net.Schedules e r) := by
  cases e
  case send src dst tag data loss => exact send_log h r
  all_goals
    rw [(apply_ghost h).2.resolve_right (by simp)]
    simp [Schedules]

end Network

/-- Call `r.call` of the run is a `send` that scheduled the delivery `r`, judged on the state the
calls before it reached. -/
def Scheduled (evs : List (NetEvent Addr Data)) (r : SendRecord Addr Data) : Prop :=
  ∃ net e, Network.run (evs.take r.call) = some net ∧ evs[r.call]? = some e ∧ net.Schedules e r

theorem scheduled_append_singleton {evs : List (NetEvent Addr Data)} {s : Network Addr Data}
    (hrun : Network.run evs = some s) (e : NetEvent Addr Data) (r : SendRecord Addr Data) :
    Scheduled (evs ++ [e]) r ↔ Scheduled evs r ∨ (r.call = evs.length ∧ s.Schedules e r) := by
  rcases Nat.lt_trichotomy r.call evs.length with hlt | heq | hgt
  · simp only [Scheduled, List.take_append_of_le_length hlt.le, List.getElem?_append_left hlt,
      hlt.ne, false_and, or_false]
  · have hnone : evs[r.call]? = none := List.getElem?_eq_none (by omega)
    simp [Scheduled, heq, hrun, hnone]
  · have hnone : evs[r.call]? = none := List.getElem?_eq_none (by omega)
    have hnone' : (evs ++ [e])[r.call]? = none := List.getElem?_eq_none (by simp; omega)
    simp [Scheduled, hnone, hnone', hgt.ne']

/-! ### Where the channels come from -/

namespace Network

/-- What event `e` on `net` may make of endpoint `ep`, now `site'`: a new endpoint with no channel,
or the endpoint it was, at the same address, with the tags of its channels kept and one channel
more if `e` is the `recv` call that opened it. -/
def SiteStep (net : Network Addr Data) (e : NetEvent Addr Data) (ep : EpId)
    (site' : Site Addr Data) : Prop :=
  (net.heap[ep]? = none ∧ site'.world.receivers = []) ∨
    ∃ site, net.heap[ep]? = some site ∧ site'.addr = site.addr ∧
      (site'.world.receivers.map Receiver.tag = site.world.receivers.map Receiver.tag ∨
        ∃ dst t res, e = .recv dst t ∧ net.recv dst t = some res ∧
          res.2 = (ep, site.world.receivers.length) ∧
          site'.world.receivers.map Receiver.tag = site.world.receivers.map Receiver.tag ++ [t])

theorem SiteStep.of_getElem? {e : NetEvent Addr Data} {ep : EpId} {site' : Site Addr Data}
    (h : net.heap[ep]? = some site') : SiteStep net e ep site' :=
  .inr ⟨site', h, rfl, .inl rfl⟩

/-- Every endpoint after an event is as `SiteStep` allows. -/
theorem apply_site {e : NetEvent Addr Data} (h : net.apply e = some net') {ep : EpId}
    {site' : Site Addr Data} (hs' : net'.heap[ep]? = some site') : SiteStep net e ep site' := by
  cases e with
  | insert target =>
    cases h
    unfold Network.insert at hs'
    split at hs'
    · exact .of_getElem? hs'
    · rcases getElem?_append_singleton_eq_some hs' with hs' | ⟨rfl, rfl⟩
      · exact .of_getElem? hs'
      · exact .inl ⟨List.getElem?_eq_none le_rfl, rfl⟩
  | remove target => cases h; exact .of_getElem? hs'
  | clog target => rw [clog_eq_some h] at hs'; exact .of_getElem? hs'
  | unclog target => rw [unclog_eq_some h] at hs'; exact .of_getElem? hs'
  | updateConfig => cases h; exact .of_getElem? hs'
  | send src dst tag data loss =>
    obtain ⟨-, ⟨-, rfl⟩ | ⟨_, -, -, -, -, rfl⟩⟩ := send_eq_some h <;> exact .of_getElem? hs'
  | recv dst t =>
    obtain ⟨res, hres, rfl⟩ := Option.map_eq_some'.1 h
    obtain ⟨site, world, -, hs, hr, hres'⟩ := recv_eq_some hres
    rw [hres'] at hs'
    rcases getElem?_set_eq_some hs' with ⟨rfl, rfl⟩ | ⟨-, hs'⟩
    · obtain ⟨w', hw', hcase⟩ := takeOrRegister_spec t site.world
      have hr' : Mailbox.takeOrRegister t site.world = some (world, res.2.2) := hr
      rw [hw', Option.some.injEq, Prod.mk.injEq] at hr'
      obtain ⟨rfl, hrx⟩ := hr'
      refine .inr ⟨site, hs, rfl, .inr ⟨dst, t, res, rfl, hres, Prod.ext rfl hrx.symm, ?_⟩⟩
      rcases hcase with ⟨-, -, -, -, -, -, rfl⟩ | ⟨-, rfl⟩ <;> simp
    · exact .of_getElem? hs'
  | drop ep₀ rx =>
    cases h
    simp only [dropReceiver, List.getElem?_modify] at hs'
    obtain ⟨site, hs, rfl⟩ := Option.map_eq_some'.1 hs'
    refine .inr ⟨site, hs, by split <;> rfl, .inl ?_⟩
    split
    · simpa using (drop_stepOk site.world rx).tags
    · rfl
  | fire timer =>
    obtain rfl | ⟨ep₀, msg, site, world, -, hs, hsend, rfl⟩ := fire_eq_some h
    · exact .of_getElem? hs'
    rcases getElem?_set_eq_some hs' with ⟨rfl, rfl⟩ | ⟨-, hs'⟩
    · exact .inr ⟨site, hs, rfl, .inl (send_tags hsend)⟩
    · exact .of_getElem? hs'

end Network

/-- Channel `rx` of endpoint `ep` was opened by a call of the run to `recv(dst, t)`: the call
returned it. -/
def Opened (evs : List (NetEvent Addr Data)) (dst : Addr) (t : UInt64) (ep : EpId) (rx : RecvId) :
    Prop :=
  ∃ i net res, evs[i]? = some (.recv dst t) ∧ Network.run (evs.take i) = some net ∧
    net.recv dst t = some res ∧ res.2 = (ep, rx)

theorem Opened.append {evs : List (NetEvent Addr Data)} {dst : Addr} {t : UInt64} {ep : EpId}
    {rx : RecvId} (h : Opened evs dst t ep rx) (evs' : List (NetEvent Addr Data)) :
    Opened (evs ++ evs') dst t ep rx := by
  obtain ⟨i, net, res, hi, hrun, hres, hep⟩ := h
  have hlt : i < evs.length := (List.getElem?_eq_some_iff.1 hi).1
  exact ⟨i, net, res, by rw [List.getElem?_append_left hlt, hi],
    by rw [List.take_append_of_le_length hlt.le, hrun], hres, hep⟩

/-! ### Whole runs -/

/-- What every run and the state it reaches satisfy: the invariant, the clock counting the calls,
the log listing the scheduled deliveries, and every channel opened by a `recv` of the run on its
endpoint's address with its tag. -/
structure RunInv (evs : List (NetEvent Addr Data)) (s : Network Addr Data) : Prop where
  inv : NetInv s
  clock : s.clock = evs.length
  log : ∀ r, r ∈ s.log ↔ Scheduled evs r
  opened : ∀ ep site, s.heap[ep]? = some site → ∀ rx rcv, site.world.receivers[rx]? = some rcv →
    Opened evs site.addr rcv.tag ep rx

theorem runInv_nil : RunInv [] (Network.new : Network Addr Data) :=
  ⟨netInv_new, rfl, by simp [Network.new, Scheduled], by simp [Network.new]⟩

theorem RunInv.snoc {evs : List (NetEvent Addr Data)} {s s' : Network Addr Data}
    {e : NetEvent Addr Data} (h : RunInv evs s) (hrun : Network.run evs = some s)
    (hs : s.step e = some s') : RunInv (evs ++ [e]) s' := by
  refine ⟨h.inv.step hs, ?_, fun r ↦ ?_, fun ep site' hs' rx rcv hrcv ↦ ?_⟩ <;>
    obtain ⟨s'', happ, rfl⟩ := Option.map_eq_some'.1 hs
  · simp [(Network.apply_ghost happ).1, h.clock]
  · rw [Network.apply_log happ, scheduled_append_singleton hrun, h.log, h.clock]
  · have htag : (site'.world.receivers.map Receiver.tag)[rx]? = some rcv.tag := by simp [hrcv]
    rcases Network.apply_site happ hs' with ⟨-, hnil⟩ | ⟨site, hsite, haddr, htags | hnew⟩
    · simp [hnil] at hrcv
    · rw [htags, List.getElem?_map, Option.map_eq_some'] at htag
      obtain ⟨rcv₀, hrcv₀, htag₀⟩ := htag
      exact haddr ▸ htag₀ ▸ (h.opened ep site hsite rx rcv₀ hrcv₀).append [e]
    · obtain ⟨dst, t, res, rfl, hres, hep, htags⟩ := hnew
      rw [htags] at htag
      rcases getElem?_append_singleton_eq_some htag with htag | ⟨hrx, ht⟩
      · rw [List.getElem?_map, Option.map_eq_some'] at htag
        obtain ⟨rcv₀, hrcv₀, htag₀⟩ := htag
        exact haddr ▸ htag₀ ▸ (h.opened ep site hsite rx rcv₀ hrcv₀).append [_]
      · obtain ⟨_, _, hlookup, -⟩ := Network.recv_eq_some hres
        obtain ⟨site₀, hs₀, hdst⟩ := h.inv.lookup_site hlookup
        rw [hep] at hs₀
        obtain rfl : site₀ = site := Option.some.inj (hs₀.symm.trans hsite)
        simp only [List.length_map] at hrx
        rw [haddr, hdst, ht]
        exact ⟨evs.length, s, res, by simp, by simp [hrun], hres, by rw [hep, hrx]⟩

theorem runInv_of_run {evs : List (NetEvent Addr Data)} {s : Network Addr Data}
    (hrun : Network.run evs = some s) : RunInv evs s :=
  (run_induction Network.step Network.new (fun evs s ↦ Network.run evs = some s ∧ RunInv evs s)
    ⟨rfl, runInv_nil⟩
    (fun evs s _ _ ⟨hrun, h⟩ hs ↦
      ⟨by rw [Network.run_append_singleton, hrun]; exact hs, h.snoc hrun hs⟩)
    evs s hrun).2

/-- Along every run of the sim-mode network from `Network::new`: the log lists exactly the calls
that were sends scheduling a delivery, each call once; for every endpoint, the messages its channels
accepted are, as a multiset, among those of the deliveries scheduled to it, so that each is matched
to a send of its own with its tag, data and source; those sends went to the address whose `insert`
allocated the endpoint; each channel was opened by a call `recv` on that address with the
channel's tag, which every message it accepted carries; and `msg_count` is the number of
scheduled deliveries modulo `2 ^ 64`. -/
theorem network_messages_come_from_sends (evs : List (NetEvent Addr Data))
    (s : Network Addr Data) (hrun : Network.run evs = some s) :
    (∀ r, r ∈ s.log ↔ Scheduled evs r) ∧ (s.log.map SendRecord.call).Nodup ∧
    (∀ ep site, s.heap[ep]? = some site →
      (accepted site.world.receivers).Subperm (s.sentTo ep) ∧
      (∀ r ∈ s.log, r.ep = ep → r.dst = site.addr) ∧
      ∀ rx rcv, site.world.receivers[rx]? = some rcv →
        Opened evs site.addr rcv.tag ep rx ∧ ∀ m, rcv.value = some m → m.tag = rcv.tag) ∧
    s.msgCount.toNat = s.log.length % UInt64.size := by
  have h := runInv_of_run hrun
  refine ⟨h.log, h.inv.log_nodup, fun ep site hs ↦ ⟨?_, fun r hr hep ↦ ?_, fun rx rcv hrcv ↦
    ⟨h.opened ep site hs rx rcv hrcv, ?_⟩⟩, h.inv.count⟩
  · exact (List.sublist_append_right _ _).subperm.trans (h.inv.held ep site hs)
  · obtain ⟨site', hs', haddr⟩ := h.inv.log_site r hr
    rw [hep, hs, Option.some.injEq] at hs'
    rw [← haddr, hs']
  · exact (h.inv.sites site (List.getElem?_mem hs)).value_tag rcv (List.getElem?_mem hrcv)

/-- A message sent from address 1 to the channel that `recv(0, 1)` opened reaches it. -/
theorem network_messages_come_from_sends_one_delivery :
    let evs : List (NetEvent ℕ ℕ) := [.insert 0, .insert 1, .recv 0 1, .send 1 0 1 7 false, .fire 0]
    ∃ s, Network.run evs = some s ∧
      ((∀ r, r ∈ s.log ↔ Scheduled evs r) ∧ (s.log.map SendRecord.call).Nodup ∧
      (∀ ep site, s.heap[ep]? = some site →
        (accepted site.world.receivers).Subperm (s.sentTo ep) ∧
        (∀ r ∈ s.log, r.ep = ep → r.dst = site.addr) ∧
        ∀ rx rcv, site.world.receivers[rx]? = some rcv →
          Opened evs site.addr rcv.tag ep rx ∧ ∀ m, rcv.value = some m → m.tag = rcv.tag) ∧
      s.msgCount.toNat = s.log.length % UInt64.size) :=
  ⟨_, rfl, network_messages_come_from_sends _ _ rfl⟩

theorem ofNat_succ (i : ℕ) : UInt64.ofNat (i + 1) = UInt64.ofNat i + 1 := by
  apply UInt64.eq_of_toBitVec_eq
  apply BitVec.eq_of_toNat_eq
  simp [UInt64.add_def, UInt64.ofNat, BitVec.toNat_add, Nat.add_mod]

/-- After `insert(0)`, `i` sends from address 0 to itself schedule `i` deliveries. -/
theorem run_insert_sends (i : ℕ) :
    Network.run (.insert 0 :: List.replicate i (.send 0 0 0 0 false) : List (NetEvent ℕ ℕ)) =
      some ⟨[(0, 0)], [], Config.default, UInt64.ofNat i, [⟨0, World.empty⟩],
        List.replicate i (0, ⟨0, 0, 0⟩),
        i + 1, (List.range i).map fun j ↦ ⟨j + 1, 0, 0, 0, 0, 0⟩⟩ := by
  induction i with
  | zero => rfl
  | succ i ih =>
    rw [List.replicate_succ', ← List.cons_append, Network.run_append_singleton, ih,
      List.replicate_succ', List.range_succ, List.map_append, ofNat_succ, Option.some_bind,
      Network.step, Network.apply, Network.send_schedules 0 0 ?_ ?_ (List.not_mem_nil _)
        (List.not_mem_nil _) Config.default_valid]
    all_goals rfl

/-- `insert(0)` and then `2 ^ 64` sends from address 0 to itself: every send schedules a delivery,
and `msg_count` is back at zero. -/
theorem msg_count_wraps :
    let evs : List (NetEvent ℕ ℕ) := .insert 0 :: List.replicate UInt64.size (.send 0 0 0 0 false)
    ∃ s, Network.run evs = some s ∧ (∀ i < UInt64.size, Scheduled evs ⟨i + 1, 0, 0, 0, 0, 0⟩) ∧
      s.msgCount = 0 := by
  intro evs
  refine ⟨_, run_insert_sends _, fun i hi ↦ ?_, by decide⟩
  have htake : evs.take (i + 1) = .insert 0 :: List.replicate i (.send 0 0 0 0 false) := by
    rw [List.take_succ_cons, List.take_replicate, min_eq_left hi.le]
  exact ⟨_, _, (congrArg Network.run htake).trans (run_insert_sends i),
    (List.getElem?_cons_succ ..).trans (List.getElem?_replicate_of_lt hi),
    rfl, rfl, rfl, List.not_mem_nil _, List.not_mem_nil _⟩

/-! ### Where the network panics -/

namespace Network

/-- The calls network.rs panics on, read off its `assert!`s, its indexing and the two random
draws: `clog` and `unclog` of an address not in the table, `send` where `SendPanics` says, and
`recv` on an address not in the table (`self.endpoints[&dst]`). -/
def Panics (net : Network Addr Data) : NetEvent Addr Data → Prop
  | .clog target | .unclog target => net.lookup target = none
  | .send src dst _ _ loss => net.SendPanics src dst loss
  | .recv dst _ => net.lookup dst = none
  | _ => False

end Network

/-- In a state of the invariant, an event panics exactly where the code asserts or indexes: every
timer holds an allocated endpoint, `Endpoint::send` never panics, and neither does the `unwrap`
of `Endpoint::recv`. -/
theorem NetInv.step_eq_none_iff (hinv : NetInv net) (e : NetEvent Addr Data) :
    net.step e = none ↔ net.Panics e := by
  rw [Network.step, Option.map_eq_none']
  cases e with
  | clog target | unclog target =>
    cases h : net.lookup target <;>
      simp [Network.apply, Network.clog, Network.unclog, Network.Panics, h, guard, failure]
  | send src dst tag data loss => exact Network.send_eq_none_iff net src dst tag data loss
  | recv dst tag =>
    cases h : net.lookup dst with
    | none => simp [Network.apply, Network.recv, Network.Panics, h]
    | some ep =>
      obtain ⟨site, hs, -⟩ := hinv.lookup_site h
      obtain ⟨w, hw, -⟩ := takeOrRegister_spec tag site.world
      simp [Network.apply, Network.recv, Network.Panics, h, hs, Endpoint.recv, hw]
  | fire timer =>
    simp only [Network.apply, Network.Panics, iff_false, Network.fire]
    split
    · simp
    · rename_i ep msg ht
      obtain ⟨site, hs⟩ : ∃ site, net.heap[ep]? = some site :=
        ⟨_, List.getElem?_eq_getElem (hinv.timers_site _ (List.getElem?_mem ht))⟩
      obtain ⟨w, hw, -⟩ := send_spec msg site.world
      simp [hs, hw]
  | insert | remove | updateConfig | drop => simp [Network.apply, Network.Panics]

end MadsimNet
