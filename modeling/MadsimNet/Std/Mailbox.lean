import MadsimNet.Rendezvous

/-!
# tcp.rs `Mailbox`: delivery that skips dropped receivers

In std mode every connection has a receiving task that decodes frames and hands each message to
`Mailbox::deliver`; a `recv_from` call takes its receiver from `Mailbox::recv`. `deliver` scans
`registered` with an index `i`: at an entry with the message's tag it swap-removes the entry and
sends the message into its channel; a send that fails, because the receiver was dropped, hands the
message back and the scan goes on at the same index, which now holds the entry that was last. An
entry with another tag advances the index. When the scan ends with the message still in hand it is
pushed onto `msgs`.

`Mailbox.deliverLoop` is that loop, by well-founded recursion on the entries left to scan, and
`deliverLoop_effect` its specification (`DeliverEffect`): the loop never panics; the entries for
the tag whose receivers were gone leave `registered`; then either a live receiver registered for the
tag accepts the message, or no entry for the tag is left and the message is parked at the end of
`msgs`. `Mailbox.step` and `Mailbox.run` apply events from `Mailbox::default()`.
-/

set_option autoImplicit false
set_option relaxedAutoImplicit false

namespace MadsimNet

variable {Addr Data : Type}

/-- The `while i < self.registered.len()` loop of `Mailbox::deliver`, with the message in hand in
`msg`. The `matches!` guard binds the message, so `msg.take().unwrap()` is that message; the
`msg.unwrap()` after the loop is the last case, and `none` is returned where the code panics. -/
def Mailbox.deliverLoop (i : ℕ) (msg : Option (Message Addr Data)) (w : World Addr Data) :
    Option (World Addr Data) :=
  if hi : i < w.mailbox.registered.length then
    match msg with
    | some m =>
      if m.tag == w.mailbox.registered[i].1 then
        match hs : swapRemove w.mailbox.registered i with
        | some ((_, sender), registered) =>
          match oneshotSend w.receivers sender m with
          | .ok receivers => some ⟨{ w.mailbox with registered }, receivers⟩
          | .error m => Mailbox.deliverLoop i (some m) ⟨{ w.mailbox with registered }, w.receivers⟩
        | none => none
      else Mailbox.deliverLoop (i + 1) msg w
    | none => Mailbox.deliverLoop (i + 1) msg w
  else
    match msg with
    | some m => some ⟨{ w.mailbox with msgs := w.mailbox.msgs ++ [m] }, w.receivers⟩
    | none => none
termination_by w.mailbox.registered.length - i
decreasing_by
  all_goals simp_wf
  · have := length_of_swapRemove hs
    omega
  all_goals omega

/-- What delivering `m` into `w` may give `w'`: the entries `dead` for its tag, whose receivers
are gone, leave `registered`; then either the live receiver `rx` registered for the tag accepts
`m`, or no entry for the tag is left and `m` is parked at the end of `msgs`. -/
def DeliverEffect (m : Message Addr Data) (w w' : World Addr Data) : Prop :=
  ∃ dead : List (UInt64 × RecvId), (∀ e ∈ dead, e.1 = m.tag ∧ Gone w.receivers e.2) ∧
    ((∃ rx r, w.receivers[rx]? = some r ∧ r.dropped = false ∧
        w.mailbox.registered.Perm (dead ++ (m.tag, rx) :: w'.mailbox.registered) ∧
        w'.mailbox.msgs = w.mailbox.msgs ∧
        w'.receivers = w.receivers.set rx { r with value := some m }) ∨
      (w.mailbox.registered.Perm (dead ++ w'.mailbox.registered) ∧
        (∀ e ∈ w'.mailbox.registered, e.1 ≠ m.tag) ∧
        w'.mailbox.msgs = w.mailbox.msgs ++ [m] ∧ w'.receivers = w.receivers))

/-- The entry `swap_remove` takes out at a matching index carries the message's tag. -/
theorem tag_of_swapRemove {registered registered' : List (UInt64 × RecvId)} {i : ℕ}
    {tag : UInt64} {rx : RecvId} {m : Message Addr Data} (hi : i < registered.length)
    (hmatch : (m.tag == registered[i].1) = true)
    (hs : swapRemove registered i = some ((tag, rx), registered')) : tag = m.tag := by
  have hget : registered[i] = (tag, rx) := by
    simpa [List.getElem?_eq_getElem hi] using getElem?_of_swapRemove hs
  rw [hget] at hmatch
  exact (beq_iff_eq.1 hmatch).symm

/-- Assumes: the scan is at index `i` with the message in hand, and no entry before `i` has its
tag. The loop ends without panicking, with the effect `DeliverEffect`. -/
theorem deliverLoop_effect (i : ℕ) (msg : Option (Message Addr Data)) (w : World Addr Data) :
    ∀ m, msg = some m → (∀ e ∈ w.mailbox.registered.take i, e.1 ≠ m.tag) →
      ∃ w', Mailbox.deliverLoop i msg w = some w' ∧ DeliverEffect m w w' := by
  induction i, msg, w using Mailbox.deliverLoop.induct with
  | case1 i w hi m hmatch tag rx registered hs receivers hsend =>
    rintro m' ⟨⟩ -
    rw [Mailbox.deliverLoop, dif_pos hi]
    simp only [hmatch, if_true]
    split <;> rename_i heq
    · rw [hs, Option.some.injEq, Prod.mk.injEq, Prod.mk.injEq] at heq
      obtain ⟨⟨rfl, rfl⟩, rfl⟩ := heq
      obtain ⟨r, hr, hlive, rfl⟩ := oneshotSend_eq_ok_iff.1 hsend
      rw [hsend]
      refine ⟨_, rfl, [], by simp, .inl ⟨rx, r, hr, hlive, ?_, rfl, rfl⟩⟩
      simpa [tag_of_swapRemove hi hmatch hs] using perm_of_swapRemove hs
    · simp [hs] at heq
  | case2 i w hi m hmatch tag rx registered hs m' hsend ih =>
    rintro m'' ⟨⟩ hpre
    rw [Mailbox.deliverLoop, dif_pos hi]
    simp only [hmatch, if_true]
    split <;> rename_i heq
    · rw [hs, Option.some.injEq, Prod.mk.injEq, Prod.mk.injEq] at heq
      obtain ⟨⟨rfl, rfl⟩, rfl⟩ := heq
      obtain ⟨rfl, hgone⟩ := oneshotSend_eq_error_iff.1 hsend
      rw [hsend]
      obtain ⟨w', hloop, dead, hdead, hcase⟩ :=
        ih m' rfl (by rw [take_of_swapRemove hs]; exact hpre)
      have hperm := perm_of_swapRemove hs
      rw [tag_of_swapRemove hi hmatch hs] at hperm
      refine ⟨w', hloop, (m'.tag, rx) :: dead, ?_, ?_⟩
      · simpa [hgone] using hdead
      · rcases hcase with ⟨rx', r, hr, hlive, hperm', hmsgs, hrecv⟩ | ⟨hperm', hnone, hmsgs, hrecv⟩
        · exact .inl ⟨rx', r, hr, hlive, hperm.trans (hperm'.cons _), hmsgs, hrecv⟩
        · exact .inr ⟨hperm.trans (hperm'.cons _), hnone, hmsgs, hrecv⟩
    · simp [hs] at heq
  | case3 i w hi m hmatch hs =>
    rintro m'' ⟨⟩ -
    rw [swapRemove_eq_none] at hs
    omega
  | case4 i w hi m hmatch ih =>
    rintro m'' ⟨⟩ hpre
    rw [Mailbox.deliverLoop, dif_pos hi]
    simp only [hmatch, if_false]
    refine ih m rfl fun e he ↦ ?_
    rw [List.take_succ, List.getElem?_eq_getElem hi] at he
    rcases List.mem_append.1 he with he | he
    · exact hpre e he
    · simp only [Option.toList_some, List.mem_singleton] at he
      subst he
      exact fun h ↦ hmatch (by simp [h])
  | case5 => rintro _ ⟨⟩
  | case6 i w hi m =>
    rintro m'' ⟨⟩ hpre
    rw [Mailbox.deliverLoop, dif_neg hi]
    rw [List.take_of_length_le (by omega)] at hpre
    exact ⟨_, rfl, [], by simp, .inr ⟨by simp, hpre, rfl, rfl⟩⟩
  | case7 => rintro _ ⟨⟩

/-- `Mailbox::deliver(msg)`. -/
def Mailbox.deliver (msg : Message Addr Data) (w : World Addr Data) : Option (World Addr Data) :=
  Mailbox.deliverLoop 0 (some msg) w

theorem deliver_effect (msg : Message Addr Data) (w : World Addr Data) :
    ∃ w', Mailbox.deliver msg w = some w' ∧ DeliverEffect msg w w' :=
  deliverLoop_effect 0 (some msg) w msg rfl (by simp)

/-- `Mailbox::recv(tag)`. -/
def Mailbox.recv (tag : UInt64) (w : World Addr Data) : Option (World Addr Data × RecvId) :=
  Mailbox.takeOrRegister tag w

/-- One event on the std-mode mailbox; `none` where the code panics. -/
def Mailbox.step (w : World Addr Data) : Event Addr Data → Option (World Addr Data)
  | .deliver msg => Mailbox.deliver msg w
  | .recv tag => (Mailbox.recv tag w).map Prod.fst
  | .drop rx => some (w.drop rx)

/-- The events of a run applied in order from `Mailbox::default()`. -/
def Mailbox.run (evs : List (Event Addr Data)) : Option (World Addr Data) :=
  evs.foldlM Mailbox.step World.empty

theorem Mailbox.run_append_singleton (evs : List (Event Addr Data)) (e : Event Addr Data) :
    Mailbox.run (evs ++ [e]) = (Mailbox.run evs).bind (Mailbox.step · e) :=
  foldlM_append_singleton _ _ evs e

end MadsimNet
