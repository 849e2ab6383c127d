import MadsimNet.Rendezvous

/-!
# network.rs `Endpoint`: delivery to the first registered receiver

In sim mode a message reaches its destination when the timer that `Network::send` scheduled fires
and calls `Endpoint::send`. It looks up the first entry of `registered` with the message's tag,
swap-removes it and sends the message into that entry's channel, ignoring the result
(`let _ = sender.send(msg)`); with no entry for the tag the message is parked on `msgs`.
`Endpoint::recv` is word for word the `recv` of tcp.rs.

`Endpoint.send` is the model and `send_spec` its specification: the call never panics, and either
the first entry for the tag leaves `registered`, its channel receiving the message when its
receiver is alive and nothing receiving it otherwise, or no entry has the tag and the message is
parked. The second case of the first branch is where this mailbox differs from tcp.rs, whose
`deliver` goes on to the next entry. `Endpoint.step` and `Endpoint.run` apply events from
`Endpoint::default()`.
-/

set_option autoImplicit false
set_option relaxedAutoImplicit false

namespace MadsimNet

/-- network.rs `Endpoint`: the same two vectors as tcp.rs `Mailbox`. -/
abbrev Endpoint := Mailbox

variable {Addr Data : Type}

/-- `Endpoint::send(msg)`: hand the message to the first registered receiver for its tag,
swap-removing the entry, or park it. The result of the oneshot send is ignored, so a message sent
into the channel of a dropped receiver is lost with it. `none` where the code panics. -/
def Endpoint.send (msg : Message Addr Data) (w : World Addr Data) : Option (World Addr Data) :=
  match w.mailbox.registered.findIdx? (fun e ↦ e.1 == msg.tag) with
  | some idx => do
    let ((_, sender), registered) ← swapRemove w.mailbox.registered idx
    let receivers := match oneshotSend w.receivers sender msg with
      | .ok receivers => receivers
      | .error _ => w.receivers
    pure ⟨{ w.mailbox with registered }, receivers⟩
  | none => pure ⟨{ w.mailbox with msgs := w.mailbox.msgs ++ [msg] }, w.receivers⟩

/-- The specification of `Endpoint::send`: it never panics; either the first entry for the tag
leaves `registered`, the last entry moving into its slot, and its channel receives the message if
and only if its receiver is alive, or no entry has the tag and the message is parked. -/
theorem send_spec (msg : Message Addr Data) (w : World Addr Data) :
    ∃ w', Endpoint.send msg w = some w' ∧
      ((∃ pre rx rest, w.mailbox.registered = pre ++ (msg.tag, rx) :: rest ∧
          (∀ e ∈ pre, e.1 ≠ msg.tag) ∧
          w'.mailbox =
            { w.mailbox with registered := pre ++ (rest.getLast?.toList ++ rest.dropLast) } ∧
          ((∃ r, w.receivers[rx]? = some r ∧ r.dropped = false ∧
              w'.receivers = w.receivers.set rx { r with value := some msg }) ∨
            (Gone w.receivers rx ∧ w'.receivers = w.receivers))) ∨
        ((∀ e ∈ w.mailbox.registered, e.1 ≠ msg.tag) ∧
          w' = ⟨{ w.mailbox with msgs := w.mailbox.msgs ++ [msg] }, w.receivers⟩)) := by
  unfold Endpoint.send
  split <;> rename_i hfind
  · obtain ⟨pre, ⟨tag, rx⟩, rest, hreg, rfl, hmatch, hpre⟩ := findIdx?_eq_some_iff_append.1 hfind
    have htag : tag = msg.tag := beq_iff_eq.1 hmatch
    subst htag
    have hpre' : ∀ e ∈ pre, e.1 ≠ msg.tag := fun e he h ↦ by simpa [h] using hpre e he
    rw [hreg, swapRemove_append_cons]
    refine ⟨_, rfl, .inl ⟨pre, rx, rest, rfl, hpre', rfl, ?_⟩⟩
    cases hsend : oneshotSend w.receivers rx msg with
    | ok receivers => exact .inl (oneshotSend_eq_ok_iff.1 hsend)
    | error m => exact .inr ⟨(oneshotSend_eq_error_iff.1 hsend).2, rfl⟩
  · refine ⟨_, rfl, .inr ⟨fun e he h ↦ ?_, rfl⟩⟩
    simpa [h] using List.findIdx?_eq_none_iff.1 hfind e he

/-- `Endpoint::recv(tag)`. -/
def Endpoint.recv (tag : UInt64) (w : World Addr Data) : Option (World Addr Data × RecvId) :=
  Mailbox.takeOrRegister tag w

/-- One event on the sim-mode mailbox; `none` where the code panics. -/
def Endpoint.step (w : World Addr Data) : Event Addr Data → Option (World Addr Data)
  | .deliver msg => Endpoint.send msg w
  | .recv tag => (Endpoint.recv tag w).map Prod.fst
  | .drop rx => some (w.drop rx)

/-- The events of a run applied in order from `Endpoint::default()`. -/
def Endpoint.run (evs : List (Event Addr Data)) : Option (World Addr Data) :=
  evs.foldlM Endpoint.step World.empty

theorem Endpoint.run_append_singleton (evs : List (Event Addr Data)) (e : Event Addr Data) :
    Endpoint.run (evs ++ [e]) = (Endpoint.run evs).bind (Endpoint.step · e) :=
  foldlM_append_singleton _ _ evs e

end MadsimNet
