import MadsimNet.Vec

/-!
# Tag-matched rendezvous: messages, oneshot receivers, events

Both mailboxes of madsim match deliveries to receivers by tag: tcp.rs `Mailbox`, fed by the
receiving task of each connection in std mode, and network.rs `Endpoint`, fed by delivery timers in
sim mode. Each holds `registered`, the tag and oneshot sender of every `recv` call still waiting,
and `msgs`, the messages no call has taken yet. This module models what the two share.

`Message` has the fields of network.rs `Message` and of tcp.rs `RecvMsg`. A `recv` call opens a
oneshot channel and returns its receiver. The model keeps every channel opened so far in creation
order, so that a receiver is named by its index (`RecvId`), and records for each the tag of the
call that opened it, the message a successful send stored in it, and whether the receiver half has
been dropped (`Receiver`). `oneshotSend` is `oneshot::Sender::send`: it hands the message back
exactly when the receiver is gone (`oneshotSend_eq_ok_iff`, `oneshotSend_eq_error_iff`).

`World` pairs the two vectors with the channels, and an `Event` is what the environment does to a
mailbox: deliver a message, call `recv`, or drop a receiver. `Mailbox.takeOrRegister` is the body
that `Mailbox::recv` and `Endpoint::recv` share word for word, and `takeOrRegister_spec` its
specification: the call never panics, and either takes the first parked message with its tag into
the new channel or registers the new sender. `accepted` lists the messages the channels hold;
`perm_accepted_set_value` says that filling one empty channel adds exactly its message.

Scope. Waking the task that awaits a receiver, and what it does with the message, are not
modelled: a receiver has accepted a message once a send into its channel has succeeded.
-/

set_option autoImplicit false
set_option relaxedAutoImplicit false

namespace MadsimNet

/-- A tagged message, with the fields of network.rs `Message` and tcp.rs `RecvMsg`. The sender's
address is `fromAddr`, since `from` is a Lean keyword. -/
structure Message (Addr Data : Type) where
  tag : UInt64
  data : Data
  fromAddr : Addr
  deriving DecidableEq, Repr

/-- A receiver, named by the position of its oneshot channel in creation order. -/
abbrev RecvId := ℕ

/-- The oneshot channel opened by a `recv(tag)` call: that tag, the message a successful `send`
stored, and whether the receiver half has been dropped. -/
structure Receiver (Addr Data : Type) where
  tag : UInt64
  value : Option (Message Addr Data)
  dropped : Bool
  deriving DecidableEq, Repr

/-- The two vectors of a tag-matching mailbox, `Mailbox` in tcp.rs and `Endpoint` in network.rs:
the tag and sender of each waiting `recv` call, and the messages not yet taken. -/
structure Mailbox (Addr Data : Type) where
  registered : List (UInt64 × RecvId)
  msgs : List (Message Addr Data)
  deriving DecidableEq, Repr

/-- A mailbox together with every channel its `recv` calls have opened. -/
structure World (Addr Data : Type) where
  mailbox : Mailbox Addr Data
  receivers : List (Receiver Addr Data)
  deriving DecidableEq, Repr

/-- What the environment does to a mailbox: deliver a message (`Mailbox::deliver` in tcp.rs,
`Endpoint::send` in network.rs), call `recv`, or drop a receiver. -/
inductive Event (Addr Data : Type) where
  | deliver (msg : Message Addr Data)
  | recv (tag : UInt64)
  | drop (rx : RecvId)
  deriving DecidableEq, Repr

variable {Addr Data : Type}

/-- `Mailbox::default()`, before any channel is opened. -/
def World.empty : World Addr Data := ⟨⟨[], []⟩, []⟩

/-! ### Oneshot channels -/

/-- `oneshot::channel()` for a `recv(tag)` call: a fresh channel at the next index. -/
def openReceiver (receivers : List (Receiver Addr Data)) (tag : UInt64) :
    List (Receiver Addr Data) :=
  receivers ++ [⟨tag, none, false⟩]

/-- `oneshot::Sender::send(msg)` into the channel of `rx`: `Err(msg)` once the receiver has been
dropped, otherwise the channel holds the message. A sender always names an opened channel, so the
last case is never taken from a reachable state. -/
def oneshotSend (receivers : List (Receiver Addr Data)) (rx : RecvId) (msg : Message Addr Data) :
    Except (Message Addr Data) (List (Receiver Addr Data)) :=
  match receivers[rx]? with
  | some r => if r.dropped then .error msg else .ok (receivers.set rx { r with value := some msg })
  | none => .error msg

/-- Dropping the receiver `rx`. -/
def World.drop (w : World Addr Data) (rx : RecvId) : World Addr Data :=
  { w with receivers := w.receivers.modify (fun r ↦ { r with dropped := true }) rx }

/-- The messages the channels hold, in channel order. -/
def accepted (receivers : List (Receiver Addr Data)) : List (Message Addr Data) :=
  receivers.filterMap Receiver.value

/-- The receiver `rx` is gone: no channel of that index is open with its receiver alive. -/
def Gone (receivers : List (Receiver Addr Data)) (rx : RecvId) : Prop :=
  ∀ r ∈ receivers[rx]?, r.dropped = true

theorem oneshotSend_eq_ok_iff {receivers receivers' : List (Receiver Addr Data)} {rx : RecvId}
    {msg : Message Addr Data} :
    oneshotSend receivers rx msg = .ok receivers' ↔
      ∃ r, receivers[rx]? = some r ∧ r.dropped = false ∧
        receivers' = receivers.set rx { r with value := some msg } := by
  unfold oneshotSend
  cases hrx : receivers[rx]? with
  | none => simp
  | some r =>
    cases hd : r.dropped
    · simp only [hd, Bool.false_eq_true, if_false, Except.ok.injEq, Option.some.injEq,
        exists_eq_left', true_and]
      exact eq_comm
    · simp [hd]

theorem oneshotSend_eq_error_iff {receivers : List (Receiver Addr Data)} {rx : RecvId}
    {msg msg' : Message Addr Data} :
    oneshotSend receivers rx msg = .error msg' ↔ msg' = msg ∧ Gone receivers rx := by
  unfold oneshotSend Gone
  cases hrx : receivers[rx]? with
  | none =>
    simp only [Except.error.injEq, Option.mem_def, reduceCtorEq, false_implies, implies_true,
      and_true]
    exact eq_comm
  | some r =>
    cases hd : r.dropped
    · simp only [hd, Bool.false_eq_true, if_false, reduceCtorEq, false_iff, not_and]
      intro _ hgone
      simpa [hd] using hgone r rfl
    · simp only [hd, if_true, Except.error.injEq, Option.mem_def, Option.some.injEq,
        forall_eq', and_true]
      exact eq_comm

@[simp] theorem accepted_openReceiver (receivers : List (Receiver Addr Data)) (tag : UInt64) :
    accepted (openReceiver receivers tag) = accepted receivers := by
  simp [accepted, openReceiver]

@[simp] theorem accepted_drop (w : World Addr Data) (rx : RecvId) :
    accepted (w.drop rx).receivers = accepted w.receivers := by
  unfold accepted World.drop
  induction w.receivers generalizing rx with
  | nil => simp
  | cons r rs ih =>
    cases rx with
    | zero => rfl
    | succ rx => simp only [List.modify_succ_cons, List.filterMap_cons, ih]

/-- Filling one empty channel adds exactly its message to the accepted ones. -/
theorem perm_accepted_set_value {receivers : List (Receiver Addr Data)} {rx : RecvId}
    {r : Receiver Addr Data} (hrx : receivers[rx]? = some r) (hempty : r.value = none)
    (msg : Message Addr Data) :
    (accepted (receivers.set rx { r with value := some msg })).Perm
      (accepted receivers ++ [msg]) := by
  obtain ⟨pre, post, rfl, rfl⟩ := exists_append_cons_of_getElem?_eq_some hrx
  simp only [accepted, List.set_append_right _ _ (le_refl _), Nat.sub_self, List.set_cons_zero,
    List.filterMap_append, List.filterMap_cons, hempty]
  rw [List.append_assoc]
  exact (List.perm_append_singleton msg _).symm.append_left _

/-! ### The shared body of `recv` -/

/-- The body of `Mailbox::recv` (tcp.rs) and of `Endpoint::recv` (network.rs): open a channel; if
a parked message has the tag, swap-remove the first such one and send it into the new channel,
where `tx.send(msg).ok().unwrap()` panics if the send fails; otherwise register the tag with the
new sender. Returns the new receiver; `none` where the code panics. -/
def Mailbox.takeOrRegister (tag : UInt64) (w : World Addr Data) :
    Option (World Addr Data × RecvId) :=
  let rx := w.receivers.length
  let receivers := openReceiver w.receivers tag
  match w.mailbox.msgs.findIdx? (fun msg ↦ tag == msg.tag) with
  | some idx => do
    let (msg, msgs) ← swapRemove w.mailbox.msgs idx
    match oneshotSend receivers rx msg with
    | .ok receivers => pure (⟨{ w.mailbox with msgs }, receivers⟩, rx)
    | .error _ => none
  | none =>
    pure (⟨{ w.mailbox with registered := w.mailbox.registered ++ [(tag, rx)] }, receivers⟩, rx)

/-- The specification of `recv`: it never panics and returns the next channel, which either takes
the first parked message with the tag, the last parked message moving into its slot, or is
registered at the end of `registered`. -/
theorem takeOrRegister_spec (tag : UInt64) (w : World Addr Data) :
    ∃ w', Mailbox.takeOrRegister tag w = some (w', w.receivers.length) ∧
      ((∃ pre m rest, w.mailbox.msgs = pre ++ m :: rest ∧ m.tag = tag ∧
          (∀ y ∈ pre, y.tag ≠ tag) ∧
          w' = ⟨{ w.mailbox with msgs := pre ++ (rest.getLast?.toList ++ rest.dropLast) },
            w.receivers ++ [⟨tag, some m, false⟩]⟩) ∨
        ((∀ m ∈ w.mailbox.msgs, m.tag ≠ tag) ∧
          w' = ⟨{ w.mailbox with
              registered := w.mailbox.registered ++ [(tag, w.receivers.length)] },
            w.receivers ++ [⟨tag, none, false⟩]⟩)) := by
  unfold Mailbox.takeOrRegister
  split <;> rename_i hfind
  · obtain ⟨pre, m, rest, hmsgs, rfl, hm, hpre⟩ := findIdx?_eq_some_iff_append.1 hfind
    have hsend : oneshotSend (openReceiver w.receivers tag) w.receivers.length m =
        .ok (w.receivers ++ [⟨tag, some m, false⟩]) := by
      simp [oneshotSend, openReceiver]
    refine ⟨_, by simp [hmsgs, swapRemove_append_cons, hsend], .inl ⟨pre, m, rest, hmsgs,
      (beq_iff_eq.1 hm).symm, fun y hy h ↦ by simpa [h] using hpre y hy, rfl⟩⟩
  · refine ⟨_, rfl, .inr ⟨fun m hm h ↦ ?_, rfl⟩⟩
    simpa [h] using List.findIdx?_eq_none_iff.1 hfind m hm

/-! ### Runs -/

/-- The messages a run delivers, in order. -/
def delivered (evs : List (Event Addr Data)) : List (Message Addr Data) :=
  evs.filterMap fun
    | .deliver msg => some msg
    | _ => none

/-- The tags of a run's `recv` calls, in order. -/
def recvTags (evs : List (Event Addr Data)) : List UInt64 :=
  evs.filterMap fun
    | .recv tag => some tag
    | _ => none

@[simp] theorem delivered_deliver (msg : Message Addr Data) :
    delivered [Event.deliver msg] = [msg] := rfl

@[simp] theorem delivered_recv (tag : UInt64) :
    delivered [(Event.recv tag : Event Addr Data)] = [] := rfl

@[simp] theorem delivered_drop (rx : RecvId) :
    delivered [(Event.drop rx : Event Addr Data)] = [] := rfl

@[simp] theorem delivered_append (evs evs' : List (Event Addr Data)) :
    delivered (evs ++ evs') = delivered evs ++ delivered evs' := List.filterMap_append ..

@[simp] theorem recvTags_deliver (msg : Message Addr Data) :
    recvTags [Event.deliver msg] = [] := rfl

@[simp] theorem recvTags_recv (tag : UInt64) :
    recvTags [(Event.recv tag : Event Addr Data)] = [tag] := rfl

@[simp] theorem recvTags_drop (rx : RecvId) :
    recvTags [(Event.drop rx : Event Addr Data)] = [] := rfl

@[simp] theorem recvTags_append (evs evs' : List (Event Addr Data)) :
    recvTags (evs ++ evs') = recvTags evs ++ recvTags evs' := List.filterMap_append ..

section Run

variable {σ ε : Type} (step : σ → ε → Option σ) (init : σ)

theorem foldlM_append_singleton (evs : List ε) (e : ε) :
    (evs ++ [e]).foldlM step init = (evs.foldlM step init).bind (step · e) := by
  simp [List.foldlM_append]

/-- A property of the events so far and the state, true at the start and carried by every step
that does not panic, holds along every run that does not panic. -/
theorem run_induction (P : List ε → σ → Prop) (hinit : P [] init)
    (hstep : ∀ evs s e s', P evs s → step s e = some s' → P (evs ++ [e]) s') :
    ∀ evs s, evs.foldlM step init = some s → P evs s := by
  intro evs
  induction evs using List.reverseRecOn with
  | nil => rintro s ⟨⟩; exact hinit
  | append_singleton evs e ih =>
    intro s' hrun
    rw [List.foldlM_append] at hrun
    cases hs : evs.foldlM step init with
    | none => simp [hs] at hrun
    | some s =>
      simp only [hs, Option.bind_eq_bind, Option.some_bind, List.foldlM_cons,
        List.foldlM_nil] at hrun
      exact hstep evs s e s' (ih s hs) (by simpa using hrun)

/-- A property as in `run_induction` whose steps never panic: every run reaches a state, and the
property holds there. -/
theorem run_total (P : List ε → σ → Prop) (hinit : P [] init)
    (hstep : ∀ evs s e, P evs s → ∃ s', step s e = some s' ∧ P (evs ++ [e]) s') :
    ∀ evs, ∃ s, evs.foldlM step init = some s ∧ P evs s := by
  intro evs
  induction evs using List.reverseRecOn with
  | nil => exact ⟨init, rfl, hinit⟩
  | append_singleton evs e ih =>
    obtain ⟨s, hs, hP⟩ := ih
    obtain ⟨s', hs', hP'⟩ := hstep evs s e hP
    exact ⟨s', by simp [List.foldlM_append, hs, hs'], hP'⟩

/-- Every step of the run from `init` meets `ok` in the state the run has reached before it. -/
def StepsMeet (ok : σ → ε → Prop) (evs : List ε) : Prop :=
  ∀ pre e post s, evs = pre ++ e :: post → pre.foldlM step init = some s → ok s e

/-- `StepsMeet` computed: run the events from `s`, checking `ok` in the state before each step, up
to the first step that panics. -/
def stepsMeetFrom (ok : σ → ε → Prop) [∀ s e, Decidable (ok s e)] : σ → List ε → Bool
  | _, [] => true
  | s, e :: evs =>
    decide (ok s e) && match step s e with
      | some s' => stepsMeetFrom ok s' evs
      | none => true

variable {step init} {ok : σ → ε → Prop}

theorem StepsMeet.nil : StepsMeet step init ok [] :=
  fun _ _ _ _ h ↦ absurd h.symm (by simp)

theorem StepsMeet.append_left {evs evs' : List ε} (h : StepsMeet step init ok (evs ++ evs')) :
    StepsMeet step init ok evs :=
  fun pre e post s heq ↦ h pre e (post ++ evs') s (by simp [heq])

theorem StepsMeet.snoc {evs : List ε} {e : ε} (h : StepsMeet step init ok evs)
    (he : ∀ s, evs.foldlM step init = some s → ok s e) : StepsMeet step init ok (evs ++ [e]) := by
  intro pre e' post s heq hs
  rcases List.eq_nil_or_concat post with rfl | ⟨post', x, rfl⟩
  · obtain ⟨rfl, he'⟩ := List.append_inj' heq (by simp)
    obtain rfl : e = e' := by simpa using he'
    exact he s hs
  · rw [List.concat_eq_append, ← List.cons_append, ← List.append_assoc] at heq
    obtain ⟨rfl, -⟩ := List.append_inj' heq rfl
    exact h pre e' post' s rfl hs

/-- `StepsMeet.snoc` at a run whose state is known. -/
theorem StepsMeet.snoc_of_eq {evs : List ε} {e : ε} {s : σ} (h : StepsMeet step init ok evs)
    (hrun : evs.foldlM step init = some s) (hok : ok s e) : StepsMeet step init ok (evs ++ [e]) :=
  h.snoc fun _ hs ↦ Option.some.inj (hrun.symm.trans hs) ▸ hok

/-- A run the checker accepts meets `ok` at every step. -/
theorem stepsMeet_of_stepsMeetFrom [∀ s e, Decidable (ok s e)] :
    ∀ {init : σ} {evs : List ε}, stepsMeetFrom step ok init evs = true → StepsMeet step init ok evs
  | _, [], _ => StepsMeet.nil
  | init, e :: evs, h => by
    simp only [stepsMeetFrom, Bool.and_eq_true, decide_eq_true_eq] at h
    rintro (_ | ⟨x, pre⟩) e' post s heq hs
    · obtain ⟨rfl, -⟩ := List.cons.inj heq
      cases hs
      exact h.1
    · obtain ⟨rfl, hrest⟩ := List.cons.inj heq
      rw [List.foldlM_cons] at hs
      cases hx : step init e with
      | none => simp [hx] at hs
      | some s₁ =>
        rw [hx] at h hs
        exact stepsMeet_of_stepsMeetFrom h.2 pre e' post s hrest hs

/-- A property as in `run_total` whose steps never panic where they meet `ok`: every run whose
steps all meet `ok` reaches a state, and the property holds there. -/
theorem run_total_of_stepsMeet (P : List ε → σ → Prop) (hinit : P [] init)
    (hstep : ∀ evs s e, P evs s → ok s e → ∃ s', step s e = some s' ∧ P (evs ++ [e]) s') :
    ∀ evs, StepsMeet step init ok evs → ∃ s, evs.foldlM step init = some s ∧ P evs s := by
  intro evs
  induction evs using List.reverseRecOn with
  | nil => exact fun _ ↦ ⟨init, rfl, hinit⟩
  | append_singleton evs e ih =>
    intro h
    obtain ⟨s, hs, hP⟩ := ih h.append_left
    obtain ⟨s', hs', hP'⟩ := hstep evs s e hP (h evs e [] s rfl hs)
    exact ⟨s', by simp [List.foldlM_append, hs, hs'], hP'⟩

/-- `run_induction` along the runs whose steps all meet `ok`: a step may assume `ok` of the state
it is taken in. -/
theorem run_induction_of_stepsMeet (P : List ε → σ → Prop) (hinit : P [] init)
    (hstep : ∀ evs s e s', P evs s → ok s e → step s e = some s' → P (evs ++ [e]) s') :
    ∀ evs s, StepsMeet step init ok evs → evs.foldlM step init = some s → P evs s := by
  intro evs
  induction evs using List.reverseRecOn with
  | nil => rintro s - ⟨⟩; exact hinit
  | append_singleton evs e ih =>
    intro s' hok hrun
    rw [foldlM_append_singleton, Option.bind_eq_some] at hrun
    obtain ⟨s, hs, h⟩ := hrun
    exact hstep evs s e s' (ih s hok.append_left hs) (hok evs e [] s rfl hs) h

end Run

end MadsimNet
