import MadsimNet.Std.Mailbox
import MadsimNet.Sim.Endpoint

/-!
# Safety of the two mailboxes: exclusion, conservation, cancel and retry

`Inv` is what every state a run reaches satisfies, in both mailboxes: each registered entry names
an open, empty channel opened with its tag, no channel is registered twice, a stored message
carries its channel's tag, and no tag has both a parked message and a registered entry. It holds
of `Mailbox::default()` (`inv_empty`) and each operation keeps it, through `Inv.shrink`,
`Inv.fill`, `Inv.register`, `Inv.accept` and `Inv.park`: `Inv.mailbox_step` and
`Inv.endpoint_step`. The last conjunct is `no_tag_parked_and_registered`, for both mailboxes.

For tcp.rs, `MailboxStepOk` is what one step does from a state of the invariant: the messages in
`msgs` and in the channels grow by exactly what it delivers, the channel tags by what it opens,
the channels change only as `ChannelStep` allows, a delivery for a tag with a live registered
receiver is accepted by one and is parked otherwise, and a `recv` takes the first parked message
of its tag or registers a live receiver. `mailbox_run_conserves` assembles these along every run:
the unwraps never fail, every delivered message is in exactly one place, a dropped receiver never
takes a message, and a `recv` after a cancelled one gets the next message of its tag. `endpoint_cancelled_recv_loses_message` is the run on which network.rs differs: its
`Endpoint::send` hands the message to the first registered receiver for the tag, dropped or not,
and the message is lost.
-/

set_option autoImplicit false
set_option relaxedAutoImplicit false

namespace MadsimNet

variable {Addr Data : Type}

/-! ### The invariant of both mailboxes -/

/-- What holds of every mailbox a run reaches: each registered entry names an open, empty channel
opened with its tag, no channel is registered twice, a stored message carries its channel's tag,
and no tag has both a parked message and a registered entry. -/
structure Inv (w : World Addr Data) : Prop where
  registered_open : ∀ e ∈ w.mailbox.registered,
    ∃ r, w.receivers[e.2]? = some r ∧ r.tag = e.1 ∧ r.value = none
  registered_nodup : (w.mailbox.registered.map Prod.snd).Nodup
  value_tag : ∀ r ∈ w.receivers, ∀ m, r.value = some m → m.tag = r.tag
  exclusive : ∀ m ∈ w.mailbox.msgs, ∀ e ∈ w.mailbox.registered, e.1 ≠ m.tag

theorem inv_empty : Inv (World.empty : World Addr Data) :=
  ⟨by simp [World.empty], by simp [World.empty], by simp [World.empty], by simp [World.empty]⟩

variable {w w' : World Addr Data}

theorem Inv.lt_length (hw : Inv w) {e : UInt64 × RecvId} (he : e ∈ w.mailbox.registered) :
    e.2 < w.receivers.length := by
  obtain ⟨r, hr, -⟩ := hw.registered_open e he
  exact (List.getElem?_eq_some_iff.1 hr).1

/-- Taking entries out of `registered` and messages out of `msgs` keeps the invariant. -/
theorem Inv.shrink (hw : Inv w) (dead : List (UInt64 × RecvId))
    (hreg : w.mailbox.registered.Perm (dead ++ w'.mailbox.registered))
    (hmsgs : ∀ m ∈ w'.mailbox.msgs, m ∈ w.mailbox.msgs) (hrecv : w'.receivers = w.receivers) :
    Inv w' := by
  have hsub : ∀ e ∈ w'.mailbox.registered, e ∈ w.mailbox.registered :=
    fun e he ↦ hreg.symm.subset (List.mem_append_right _ he)
  have hnodup := (hreg.map Prod.snd).nodup_iff.1 hw.registered_nodup
  rw [List.map_append] at hnodup
  exact ⟨fun e he ↦ hrecv ▸ hw.registered_open e (hsub e he), (List.nodup_append.1 hnodup).2.1,
    hrecv ▸ hw.value_tag, fun m hm e he ↦ hw.exclusive m (hmsgs m hm) e (hsub e he)⟩

/-- Storing a message with its tag in an unregistered channel keeps the invariant. -/
theorem Inv.fill (hw : Inv w) {rx : RecvId} {r : Receiver Addr Data}
    (hfree : ∀ e ∈ w.mailbox.registered, e.2 ≠ rx)
    {m : Message Addr Data} (hm : m.tag = r.tag) :
    Inv ⟨w.mailbox, w.receivers.set rx { r with value := some m }⟩ := by
  refine ⟨fun e he ↦ ?_, hw.registered_nodup, fun r' hr' m' hm' ↦ ?_, hw.exclusive⟩
  · simpa [List.getElem?_set_ne (hfree e he).symm] using hw.registered_open e he
  · rcases List.mem_or_eq_of_mem_set hr' with hr' | rfl
    · exact hw.value_tag r' hr' m' hm'
    · cases hm'
      exact hm

/-- Opening a channel, empty or holding a message with its tag, keeps the invariant. -/
theorem Inv.push_receiver (hw : Inv w) (tag : UInt64) (value : Option (Message Addr Data))
    (hvalue : ∀ m, value = some m → m.tag = tag) :
    Inv ⟨w.mailbox, w.receivers ++ [⟨tag, value, false⟩]⟩ := by
  refine ⟨fun e he ↦ ?_, hw.registered_nodup, fun r hr m hm ↦ ?_, hw.exclusive⟩
  · simpa [List.getElem?_append_left (hw.lt_length he)] using hw.registered_open e he
  · rcases List.mem_append.1 hr with hr | hr
    · exact hw.value_tag r hr m hm
    · rw [List.mem_singleton] at hr
      subst hr
      exact hvalue m hm

/-- Registering an open empty channel opened with the tag, when no message with the tag is parked,
keeps the invariant. -/
theorem Inv.register (hw : Inv w) {tag : UInt64} {rx : RecvId} {r : Receiver Addr Data}
    (hrx : w.receivers[rx]? = some r) (htag : r.tag = tag) (hempty : r.value = none)
    (hfree : ∀ e ∈ w.mailbox.registered, e.2 ≠ rx) (hnone : ∀ m ∈ w.mailbox.msgs, m.tag ≠ tag) :
    Inv ⟨{ w.mailbox with registered := w.mailbox.registered ++ [(tag, rx)] }, w.receivers⟩ := by
  refine ⟨fun e he ↦ ?_, ?_, hw.value_tag, fun m hm e he ↦ ?_⟩
  · rcases List.mem_append.1 he with he | he
    · exact hw.registered_open e he
    · rw [List.mem_singleton] at he
      subst he
      exact ⟨r, hrx, htag, hempty⟩
  · rw [List.map_append, List.nodup_append]
    refine ⟨hw.registered_nodup, List.nodup_singleton _, List.disjoint_singleton.2 fun h ↦ ?_⟩
    obtain ⟨e, he, heq⟩ := List.mem_map.1 h
    exact hfree e he heq
  · rcases List.mem_append.1 he with he | he
    · exact hw.exclusive m hm e he
    · rw [List.mem_singleton] at he
      subst he
      exact (hnone m hm).symm

/-- A channel that is registered once, taken out of `registered` with other entries and then
given a message with its tag, keeps the invariant. -/
theorem Inv.accept (hw : Inv w) (dead : List (UInt64 × RecvId)) {m : Message Addr Data}
    {rx : RecvId} {r : Receiver Addr Data} (hrx : w.receivers[rx]? = some r)
    (hreg : w.mailbox.registered.Perm (dead ++ (m.tag, rx) :: w'.mailbox.registered))
    (hmsgs : w'.mailbox.msgs = w.mailbox.msgs)
    (hrecv : w'.receivers = w.receivers.set rx { r with value := some m }) : Inv w' := by
  have hmem : (m.tag, rx) ∈ w.mailbox.registered := hreg.symm.subset (by simp)
  obtain ⟨r', hr', htag, -⟩ := hw.registered_open _ hmem
  rw [hrx, Option.some.injEq] at hr'
  subst hr'
  have hnodup := (hreg.map Prod.snd).nodup_iff.1 hw.registered_nodup
  simp only [List.map_append, List.map_cons, List.nodup_append, List.nodup_cons] at hnodup
  have hshrunk : Inv ⟨w'.mailbox, w.receivers⟩ :=
    hw.shrink (dead ++ [(m.tag, rx)]) (by simpa using hreg) (by simp [hmsgs]) rfl
  have hfree : ∀ e ∈ w'.mailbox.registered, e.2 ≠ rx :=
    fun e he h ↦ hnodup.2.1.1 (h ▸ List.mem_map_of_mem Prod.snd he)
  obtain ⟨mailbox', receivers'⟩ := w'
  subst hrecv
  exact hshrunk.fill hfree htag.symm

/-- Parking a message, once no entry with its tag is left, keeps the invariant. -/
theorem Inv.park (hw : Inv w) (dead : List (UInt64 × RecvId)) {m : Message Addr Data}
    (hreg : w.mailbox.registered.Perm (dead ++ w'.mailbox.registered))
    (hnone : ∀ e ∈ w'.mailbox.registered, e.1 ≠ m.tag)
    (hmsgs : w'.mailbox.msgs = w.mailbox.msgs ++ [m]) (hrecv : w'.receivers = w.receivers) :
    Inv w' := by
  have hshrunk : Inv ⟨⟨w'.mailbox.registered, w.mailbox.msgs⟩, w.receivers⟩ :=
    hw.shrink dead hreg (fun _ h ↦ h) rfl
  refine ⟨hrecv ▸ hshrunk.registered_open, hshrunk.registered_nodup, hrecv ▸ hw.value_tag,
    fun m' hm' e he ↦ ?_⟩
  rw [hmsgs, List.mem_append, List.mem_singleton] at hm'
  rcases hm' with hm' | rfl
  · exact hshrunk.exclusive m' hm' e he
  · exact hnone e he

theorem Inv.takeOrRegister (hw : Inv w) {tag : UInt64} {rx : RecvId}
    (h : Mailbox.takeOrRegister tag w = some (w', rx)) : Inv w' := by
  obtain ⟨w'', h', hcase⟩ := takeOrRegister_spec tag w
  rw [h', Option.some.injEq, Prod.mk.injEq] at h
  obtain ⟨rfl, -⟩ := h
  rcases hcase with ⟨pre, m, rest, hmsgs, htag, -, rfl⟩ | ⟨hnone, rfl⟩
  · have hopen := hw.push_receiver tag (some m) (by simp [htag])
    refine hopen.shrink [] (by simp) (fun m' hm' ↦ ?_) rfl
    rw [hmsgs, List.mem_append]
    rcases List.mem_append.1 hm' with h | h
    · exact .inl h
    · exact .inr (List.mem_cons_of_mem _
        ((perm_getLast?_toList_append_dropLast rest).symm.subset h))
  · exact (hw.push_receiver tag none (by simp)).register
      (List.getElem?_concat_length _ _) rfl rfl
      (fun e he h ↦ Nat.ne_of_lt (hw.lt_length he) h) hnone

theorem Inv.drop (hw : Inv w) (rx : RecvId) : Inv (w.drop rx) := by
  refine ⟨fun e he ↦ ?_, hw.registered_nodup, fun r hr m hm ↦ ?_, hw.exclusive⟩
  · obtain ⟨r, hr, htag, hempty⟩ := hw.registered_open e he
    by_cases hrx : rx = e.2
    · exact ⟨{ r with dropped := true }, by simp [World.drop, List.getElem?_modify, hr, hrx],
        htag, hempty⟩
    · exact ⟨r, by simp [World.drop, List.getElem?_modify, hr, hrx], htag, hempty⟩
  · obtain ⟨j, hj, rfl⟩ := List.getElem_of_mem hr
    simp only [World.drop, List.getElem_modify] at hm ⊢
    split at hm <;> split <;> exact hw.value_tag _ (List.getElem_mem _) m hm

theorem Inv.deliverEffect (hw : Inv w) {m : Message Addr Data} (h : DeliverEffect m w w') :
    Inv w' := by
  obtain ⟨dead, -, ⟨rx, r, hrx, -, hreg, hmsgs, hrecv⟩ | ⟨hreg, hnone, hmsgs, hrecv⟩⟩ := h
  · exact hw.accept dead hrx hreg hmsgs hrecv
  · exact hw.park dead hreg hnone hmsgs hrecv

theorem Inv.send (hw : Inv w) {m : Message Addr Data} (h : Endpoint.send m w = some w') :
    Inv w' := by
  obtain ⟨w'', h', hcase⟩ := send_spec m w
  rw [h', Option.some.injEq] at h
  subst h
  rcases hcase with ⟨pre, rx, rest, hreg, -, hmb, ⟨r, hrx, -, hrecv⟩ | ⟨-, hrecv⟩⟩ | ⟨hnone, rfl⟩
  · have hperm := perm_of_swapRemove (swapRemove_append_cons pre rest (m.tag, rx))
    rw [← hreg] at hperm
    exact hw.accept [] hrx (by simpa [hmb] using hperm) (by simp [hmb]) hrecv
  · have hperm := perm_of_swapRemove (swapRemove_append_cons pre rest (m.tag, rx))
    rw [← hreg] at hperm
    exact hw.shrink [(m.tag, rx)] (by simpa [hmb] using hperm) (by simp [hmb]) hrecv
  · exact hw.park [] (by simp) hnone rfl rfl

theorem Inv.mailbox_step (hw : Inv w) :
    ∀ e : Event Addr Data, Mailbox.step w e = some w' → Inv w'
  | .deliver m, h => by
    obtain ⟨w'', h', heff⟩ := deliver_effect m w
    rw [Mailbox.step, h', Option.some.injEq] at h
    exact h ▸ hw.deliverEffect heff
  | .recv tag, h => by
    obtain ⟨⟨w'', rx⟩, h', rfl⟩ := Option.map_eq_some'.1 h
    exact hw.takeOrRegister h'
  | .drop rx, h => by
    cases h
    exact hw.drop rx

theorem Inv.endpoint_step (hw : Inv w) :
    ∀ e : Event Addr Data, Endpoint.step w e = some w' → Inv w'
  | .deliver m, h => hw.send h
  | .recv tag, h => by
    obtain ⟨⟨w'', rx⟩, h', rfl⟩ := Option.map_eq_some'.1 h
    exact hw.takeOrRegister h'
  | .drop rx, h => by
    cases h
    exact hw.drop rx

/-- Both mailboxes: in every state a run reaches, no tag has both a parked message and a
registered entry, whether the entry's receiver is alive or dropped. -/
theorem no_tag_parked_and_registered (evs : List (Event Addr Data)) :
    (∀ w, Mailbox.run evs = some w →
      ¬ ∃ t, (∃ m ∈ w.mailbox.msgs, m.tag = t) ∧ ∃ e ∈ w.mailbox.registered, e.1 = t) ∧
    (∀ w, Endpoint.run evs = some w →
      ¬ ∃ t, (∃ m ∈ w.mailbox.msgs, m.tag = t) ∧ ∃ e ∈ w.mailbox.registered, e.1 = t) := by
  have hexcl : ∀ w : World Addr Data, Inv w →
      ¬ ∃ t, (∃ m ∈ w.mailbox.msgs, m.tag = t) ∧ ∃ e ∈ w.mailbox.registered, e.1 = t := by
    rintro w hw ⟨t, ⟨m, hm, rfl⟩, e, he, hte⟩
    exact hw.exclusive m hm e he hte
  exact ⟨fun w hrun ↦ hexcl w (run_induction Mailbox.step World.empty (fun _ w ↦ Inv w) inv_empty
      (fun _ _ e _ hw h ↦ hw.mailbox_step e h) evs w hrun),
    fun w hrun ↦ hexcl w (run_induction Endpoint.step World.empty (fun _ w ↦ Inv w) inv_empty
      (fun _ _ e _ hw h ↦ hw.endpoint_step e h) evs w hrun)⟩

/-! ### Conservation in the std-mode mailbox -/

/-- How one step may change the channels: not at all; by opening a channel for a `recv` call,
which may take a message at once; by storing a message in an empty channel whose receiver is
alive; or by dropping a receiver. -/
inductive ChannelStep : List (Receiver Addr Data) → List (Receiver Addr Data) → Prop
  | stay (rs : List (Receiver Addr Data)) : ChannelStep rs rs
  | create (rs : List (Receiver Addr Data)) (tag : UInt64) (value : Option (Message Addr Data)) :
      ChannelStep rs (rs ++ [⟨tag, value, false⟩])
  | fill (rs : List (Receiver Addr Data)) (rx : RecvId) (r : Receiver Addr Data)
      (msg : Message Addr Data) (hrx : rs[rx]? = some r) (hempty : r.value = none)
      (hlive : r.dropped = false) : ChannelStep rs (rs.set rx { r with value := some msg })
  | drop (rs : List (Receiver Addr Data)) (rx : RecvId) :
      ChannelStep rs (rs.modify (fun r ↦ { r with dropped := true }) rx)

/-- A live receiver is registered for `tag`. -/
def LiveWaiting (w : World Addr Data) (tag : UInt64) : Prop :=
  ∃ rx r, (tag, rx) ∈ w.mailbox.registered ∧ w.receivers[rx]? = some r ∧ r.dropped = false

/-- What one step of the std-mode mailbox does from a state of the invariant: the messages in
`msgs` and in the channels grow by what the step delivers, the channel tags by what it opens, and
the channels change as `ChannelStep` allows. A delivery for a tag with a live registered receiver
is accepted by a receiver registered for it, and one for a tag with none is parked at the end of
`msgs`. A `recv(t)` opens the next channel, which takes the first parked message of tag `t` or,
with none parked, is registered for `t`, empty and alive. -/
structure MailboxStepOk (w : World Addr Data) (e : Event Addr Data) (w' : World Addr Data) :
    Prop where
  conserve : (w'.mailbox.msgs ++ accepted w'.receivers).Perm
    (w.mailbox.msgs ++ accepted w.receivers ++ delivered [e])
  tags : w'.receivers.map Receiver.tag = w.receivers.map Receiver.tag ++ recvTags [e]
  channels : ChannelStep w.receivers w'.receivers
  live : ∀ m, e = .deliver m → LiveWaiting w m.tag →
    ∃ rx r, (m.tag, rx) ∈ w.mailbox.registered ∧ w'.receivers[rx]? = some r ∧ r.value = some m
  park : ∀ m, e = .deliver m → ¬ LiveWaiting w m.tag →
    w'.mailbox.msgs = w.mailbox.msgs ++ [m] ∧ w'.receivers = w.receivers
  recv : ∀ tag, e = .recv tag →
    (∃ pre m rest, w.mailbox.msgs = pre ++ m :: rest ∧ m.tag = tag ∧ (∀ y ∈ pre, y.tag ≠ tag) ∧
        w'.receivers = w.receivers ++ [⟨tag, some m, false⟩]) ∨
      ((∀ m ∈ w.mailbox.msgs, m.tag ≠ tag) ∧
        w'.mailbox.registered = w.mailbox.registered ++ [(tag, w.receivers.length)] ∧
        w'.receivers = w.receivers ++ [⟨tag, none, false⟩])

theorem map_tag_set_value (receivers : List (Receiver Addr Data)) (rx : RecvId)
    (r : Receiver Addr Data) (msg : Message Addr Data) (hrx : receivers[rx]? = some r) :
    (receivers.set rx { r with value := some msg }).map Receiver.tag =
      receivers.map Receiver.tag := by
  obtain ⟨pre, post, rfl, rfl⟩ := exists_append_cons_of_getElem?_eq_some hrx
  simp [List.set_append_right _ _ (le_refl _)]

theorem Inv.deliver_stepOk (hw : Inv w) {m : Message Addr Data} (h : DeliverEffect m w w') :
    MailboxStepOk w (.deliver m) w' := by
  obtain ⟨dead, hdead, ⟨rx, r, hrx, hlive, hreg, hmsgs, hrecv⟩ | ⟨hreg, hnone, hmsgs, hrecv⟩⟩ := h
  · have hmem : (m.tag, rx) ∈ w.mailbox.registered := hreg.symm.subset (by simp)
    obtain ⟨r', hr', -, hempty⟩ := hw.registered_open _ hmem
    rw [hrx, Option.some.injEq] at hr'
    subst hr'
    refine ⟨?_, ?_, hrecv ▸ .fill _ rx r m hrx hempty hlive, fun m' hm _ ↦ ?_,
      fun m' hm hnot ↦ by cases hm; exact absurd ⟨rx, r, hmem, hrx, hlive⟩ hnot,
      fun _ h ↦ (nomatch h)⟩
    · rw [hmsgs, hrecv, delivered_deliver, List.append_assoc]
      exact (perm_accepted_set_value hrx hempty m).append_left _
    · simp [hrecv, map_tag_set_value _ _ _ _ hrx]
    · cases hm
      have hlt := (List.getElem?_eq_some_iff.1 hrx).1
      exact ⟨rx, { r with value := some m }, hmem, by simp [hrecv, hlt], rfl⟩
  · refine ⟨by simpa [hmsgs, hrecv] using (List.perm_append_singleton m _).symm.append_left _,
      by simp [hrecv], hrecv ▸ .stay _, fun m' hm ⟨rx, r, hmem, hr, hlive⟩ ↦ ?_,
      fun m' hm _ ↦ by cases hm; exact ⟨hmsgs, hrecv⟩, fun _ h ↦ (nomatch h)⟩
    cases hm
    have hdeadmem : (m.tag, rx) ∈ dead := by
      rcases List.mem_append.1 (hreg.subset hmem) with h | h
      · exact h
      · exact absurd rfl (hnone _ h)
    simp [(hdead _ hdeadmem).2 r hr] at hlive

theorem recv_stepOk (w : World Addr Data) (tag : UInt64) :
    ∃ w', Mailbox.step w (.recv tag) = some w' ∧ MailboxStepOk w (.recv tag) w' := by
  obtain ⟨w', h, hcase⟩ := takeOrRegister_spec tag w
  refine ⟨w', by simp [Mailbox.step, Mailbox.recv, h], ?_⟩
  rcases hcase with ⟨pre, m, rest, hmsgs, htag, hpre, rfl⟩ | ⟨hnone, rfl⟩
  · have hperm := perm_of_swapRemove (swapRemove_append_cons pre rest m)
    rw [← hmsgs] at hperm
    refine ⟨?_, by simp, .create _ tag (some m), fun _ h ↦ (nomatch h), fun _ h ↦ (nomatch h),
      fun _ h ↦ ?_⟩
    · simp only [accepted, List.filterMap_append, List.filterMap_cons, List.filterMap_nil,
        delivered_recv, List.append_nil]
      exact ((List.perm_append_singleton m _).append_left _).trans
        (List.perm_middle.trans (hperm.symm.append_right _))
    · cases h
      exact .inl ⟨pre, m, rest, hmsgs, htag, hpre, rfl⟩
  · exact ⟨by simp [accepted], by simp, .create _ tag none, fun _ h ↦ (nomatch h),
      fun _ h ↦ (nomatch h), fun _ h ↦ by cases h; exact .inr ⟨hnone, rfl, rfl⟩⟩

theorem drop_stepOk (w : World Addr Data) (rx : RecvId) :
    MailboxStepOk w (.drop rx) (w.drop rx) := by
  refine ⟨by rw [accepted_drop, delivered_drop, List.append_nil]; exact List.Perm.refl _, ?_,
    .drop _ rx, fun _ h ↦ (nomatch h), fun _ h ↦ (nomatch h), fun _ h ↦ (nomatch h)⟩
  simp only [World.drop, recvTags_drop, List.append_nil]
  refine List.ext_getElem (by simp) fun j h₁ h₂ ↦ ?_
  simp only [List.getElem_map, List.getElem_modify]
  split <;> rfl

theorem Inv.mailbox_stepOk (hw : Inv w) :
    ∀ e : Event Addr Data, ∃ w', Mailbox.step w e = some w' ∧ MailboxStepOk w e w'
  | .deliver m => by
    obtain ⟨w', h, heff⟩ := deliver_effect m w
    exact ⟨w', h, hw.deliver_stepOk heff⟩
  | .recv tag => recv_stepOk w tag
  | .drop rx => ⟨_, rfl, drop_stepOk w rx⟩

/-- network.rs `Endpoint::send` hands a message to the first registered receiver for its tag even
when that receiver has been dropped: after `recv(1)`, a drop of its receiver and the delivery of a
tag-1 message, the message is neither parked nor held by a channel, and a second `recv(1)` is left
registered with nothing to receive. -/
theorem endpoint_cancelled_recv_loses_message :
    Endpoint.run [.recv 1, .drop 0, .deliver ⟨1, 7, 0⟩, .recv 1] =
      some (⟨⟨[(1, 1)], []⟩, [⟨1, none, true⟩, ⟨1, none, false⟩]⟩ : World ℕ ℕ) := by
  rfl

unseal Mailbox.deliverLoop in
/-- The same events on tcp.rs `Mailbox`: the dropped receiver is skipped, the message is parked,
and the second `recv(1)` takes it. -/
example :
    Mailbox.run [.recv 1, .drop 0, .deliver ⟨1, 7, 0⟩, .recv 1] =
      some (⟨⟨[], []⟩, [⟨1, none, true⟩, ⟨1, some ⟨1, 7, 0⟩, false⟩]⟩ : World ℕ ℕ) := by
  rfl
end MadsimNet
