import MadsimNet.Agreement

/-!
# Per-tag order: the FIFO queues both mailboxes refine, and where `swap_remove` breaks them

Both mailboxes are meant to be one pair of FIFO queues per tag: parked messages are handed out in
the order they arrived, and waiting receivers are served in the order they registered. `TagQueue`
states that design for one tag, with `TagQueue.deliverStd` for tcp.rs, which passes over
receivers that are gone, and `TagQueue.deliverSim` for network.rs, which hands the message to the
first waiter whatever its state. The code keeps all tags in two vectors and removes with
`swap_remove`, which moves the last entry into the freed slot: `recv_order_breaks_after_swap_remove`
replays three messages of one tag coming out first, third, second, and three receivers of one tag
served first, then third, in both mailboxes.

`World.view` reads one tag's queues off the two vectors and the channels, naming each receiver by
its rank among the receivers for the tag, and `tagTrace` reads the events that concern the tag off
a run. A `swap_remove` keeps every tag's order exactly when the last entry, which it moves into the
freed slot, passes no entry of its own tag (`SwapKeepsOrder`); `Mailbox.KeepsTagOrder` and
`Endpoint.KeepsTagOrder` say this of every `swap_remove` one step makes, `deliver` in tcp.rs making
one for each dead entry it meets. Where it holds, one step of either mailbox is one step of each
tag's queues: `view_mailbox_step` and `view_endpoint_step`, and along whole runs
`view_mailbox_run` and `view_endpoint_run`. `mailbox_fifo_per_tag` states the refinement for both
mailboxes. The tag's queues depend on nothing but the tag's own events, so
`tag_receivers_agree_across_interleavings` follows: two such runs with the same events for a tag
give every receiver for that tag the same message. `interleaving_changes_received_message` is a
pair of runs, with the same events for tag 1, in which the receiver of tag 1 gets different
messages.
-/

set_option autoImplicit false
set_option relaxedAutoImplicit false

namespace MadsimNet

variable {Addr Data : Type}

/-! ### One tag's queues, as the design describes them -/

/-- The oneshot send into one channel: a live receiver stores the message, a dropped one loses
it. -/
def Receiver.fill (msg : Message Addr Data) (r : Receiver Addr Data) : Receiver Addr Data :=
  if r.dropped then r else { r with value := some msg }

@[simp] theorem Receiver.fill_tag (msg : Message Addr Data) (r : Receiver Addr Data) :
    (r.fill msg).tag = r.tag := by
  unfold Receiver.fill
  split <;> rfl

/-- One tag's mailbox: the parked messages and the waiting receivers as FIFO queues, and the
channels opened for the tag, the `k`-th by the tag's `k`-th `recv`; a waiter is named by that
rank. -/
structure TagQueue (Addr Data : Type) where
  pending : List (Message Addr Data)
  waiters : List ℕ
  receivers : List (Receiver Addr Data)
  deriving DecidableEq, Repr

/-- What happens to one tag: a delivery, a `recv`, or the drop of the tag's `k`-th receiver. -/
inductive TagEvent (Addr Data : Type) where
  | deliver (msg : Message Addr Data)
  | recv
  | drop (k : ℕ)
  deriving DecidableEq, Repr

namespace TagQueue

def empty : TagQueue Addr Data := ⟨[], [], []⟩

/-- The tag's `k`-th receiver exists and has not been dropped. -/
def alive (q : TagQueue Addr Data) (k : ℕ) : Bool := q.receivers[k]?.any (!·.dropped)

/-- A `recv` for tag `t` opens the tag's next channel, which takes the message at the head of the
queue or joins the end of the waiters. -/
def recv (t : UInt64) (q : TagQueue Addr Data) : TagQueue Addr Data :=
  match q.pending with
  | msg :: rest => { q with pending := rest, receivers := q.receivers ++ [⟨t, some msg, false⟩] }
  | [] =>
    { q with
      waiters := q.waiters ++ [q.receivers.length]
      receivers := q.receivers ++ [⟨t, none, false⟩] }

/-- The tag's `k`-th receiver is dropped. -/
def drop (q : TagQueue Addr Data) (k : ℕ) : TagQueue Addr Data :=
  { q with receivers := q.receivers.modify (fun r ↦ { r with dropped := true }) k }

/-- A delivery as tcp.rs means it: waiters whose receivers are gone leave the queue, the first
live one takes the message, and with none left the message joins the end of the queue. -/
def deliverStd (msg : Message Addr Data) (q : TagQueue Addr Data) : TagQueue Addr Data :=
  match q.waiters.dropWhile (fun k ↦ !q.alive k) with
  | k :: rest => { q with waiters := rest, receivers := q.receivers.modify (Receiver.fill msg) k }
  | [] => { q with waiters := [], pending := q.pending ++ [msg] }

/-- A delivery as network.rs means it: the first waiter leaves the queue and its channel gets the
message, lost if the receiver is gone; with no waiter the message joins the end of the queue. -/
def deliverSim (msg : Message Addr Data) (q : TagQueue Addr Data) : TagQueue Addr Data :=
  match q.waiters with
  | k :: rest => { q with waiters := rest, receivers := q.receivers.modify (Receiver.fill msg) k }
  | [] => { q with pending := q.pending ++ [msg] }

/-- One event of tag `t`, with `deliver` one of the two deliveries. -/
def step (deliver : Message Addr Data → TagQueue Addr Data → TagQueue Addr Data) (t : UInt64)
    (q : TagQueue Addr Data) : TagEvent Addr Data → TagQueue Addr Data
  | .deliver msg => deliver msg q
  | .recv => q.recv t
  | .drop k => q.drop k

/-- The events of tag `t` applied in order from the empty queues. -/
def run (deliver : Message Addr Data → TagQueue Addr Data → TagQueue Addr Data) (t : UInt64)
    (evs : List (TagEvent Addr Data)) : TagQueue Addr Data :=
  evs.foldl (step deliver t) empty

theorem run_append_toList (deliver : Message Addr Data → TagQueue Addr Data → TagQueue Addr Data)
    (t : UInt64) (evs : List (TagEvent Addr Data)) (e : Option (TagEvent Addr Data)) :
    run deliver t (evs ++ e.toList) =
      e.elim (run deliver t evs) (step deliver t (run deliver t evs)) := by
  cases e <;> simp [run]

/-- A waiter at the head of the queue whose receiver is gone changes nothing for tcp.rs's
delivery. -/
theorem deliverStd_of_dead_head {q : TagQueue Addr Data} {k : ℕ} {ks : List ℕ}
    (hq : q.waiters = k :: ks) (hk : q.alive k = false) (msg : Message Addr Data) :
    deliverStd msg { q with waiters := ks } = deliverStd msg q := by
  conv_rhs => unfold deliverStd; rw [hq, List.dropWhile_cons, if_pos (by simp [hk])]
  rfl

theorem gone_of_not_alive {q : TagQueue Addr Data} {k : ℕ} (h : q.alive k = false) :
    Gone q.receivers k := by
  intro r hr
  simp only [alive, Option.mem_def] at h hr
  simpa [hr] using h

end TagQueue

/-! ### Reading one tag's queues off the mailbox -/

/-- The rank of receiver `rx` among the receivers for tag `t`, from the tags of all receivers in
creation order: how many receivers for `t` were opened before it. -/
def rank (t : UInt64) (tags : List UInt64) (rx : RecvId) : ℕ := (tags.take rx).count t

/-- What the mailbox holds for tag `t`: its parked messages and its registered receivers in the
order of the two vectors, each receiver by its rank, and the channels opened for `t`. -/
def World.view (t : UInt64) (w : World Addr Data) : TagQueue Addr Data where
  pending := w.mailbox.msgs.filter (·.tag == t)
  waiters := (w.mailbox.registered.filter (·.1 == t)).map
    fun e ↦ rank t (w.receivers.map Receiver.tag) e.2
  receivers := w.receivers.filter (·.tag == t)

/-- The event `e` as tag `t` sees it, given the tags of the receivers opened before it; `none` if
it concerns another tag. -/
def tagEvent (t : UInt64) (tags : List UInt64) : Event Addr Data → Option (TagEvent Addr Data)
  | .deliver msg => if msg.tag = t then some (.deliver msg) else none
  | .recv tag => if tag = t then some .recv else none
  | .drop rx => if tags[rx]? = some t then some (.drop (rank t tags rx)) else none

/-- The events of a run that concern tag `t`, in order, when `tags` are the tags of the receivers
opened before the run. -/
def tagTraceFrom (t : UInt64) : List UInt64 → List (Event Addr Data) → List (TagEvent Addr Data)
  | _, [] => []
  | tags, e :: evs => (tagEvent t tags e).toList ++ tagTraceFrom t (tags ++ recvTags [e]) evs

/-- The events of a run from the empty mailbox that concern tag `t`: deliveries of its messages,
its `recv` calls, and drops of its receivers, each named by rank. -/
def tagTrace (t : UInt64) (evs : List (Event Addr Data)) : List (TagEvent Addr Data) :=
  tagTraceFrom t [] evs

theorem tagTraceFrom_append_singleton (t : UInt64) (evs : List (Event Addr Data))
    (e : Event Addr Data) : ∀ tags, tagTraceFrom t tags (evs ++ [e]) =
      tagTraceFrom t tags evs ++ (tagEvent t (tags ++ recvTags evs) e).toList := by
  induction evs with
  | nil => simp [tagTraceFrom, recvTags]
  | cons e' evs ih =>
    intro tags
    rw [List.cons_append, tagTraceFrom, tagTraceFrom, ih, List.append_assoc, List.append_assoc,
      ← recvTags_append, List.singleton_append]

theorem tagTrace_append_singleton (t : UInt64) (evs : List (Event Addr Data))
    (e : Event Addr Data) :
    tagTrace t (evs ++ [e]) = tagTrace t evs ++ (tagEvent t (recvTags evs) e).toList := by
  simpa using tagTraceFrom_append_singleton t evs e []

/-- The removals tcp.rs `Mailbox::deliver(m)` makes from `w`, each checked with `SwapKeepsOrder`:
the scan swap-removes the first entry for the tag and, while the receiver there is gone, the first
entry for the tag of what is left. `fuel` bounds the removals; the length of `registered` is
enough. -/
def Mailbox.deliverKeepsOrder (m : Message Addr Data) : ℕ → World Addr Data → Bool
  | 0, _ => true
  | fuel + 1, w =>
    match w.mailbox.registered.findIdx? (·.1 == m.tag) with
    | none => true
    | some i =>
      decide (SwapKeepsOrder Prod.fst w.mailbox.registered i) &&
        match swapRemove w.mailbox.registered i with
        | some ((_, rx), registered) =>
          match oneshotSend w.receivers rx m with
          | .ok _ => true
          | .error _ =>
            Mailbox.deliverKeepsOrder m fuel ⟨{ w.mailbox with registered }, w.receivers⟩
        | none => true

/-- No `swap_remove` that step `e` of tcp.rs `Mailbox` makes from `w` moves an entry past another
entry of its own tag. -/
def Mailbox.KeepsTagOrder (w : World Addr Data) : Event Addr Data → Prop
  | .deliver msg => Mailbox.deliverKeepsOrder msg w.mailbox.registered.length w = true
  | .recv tag => FirstRemovalKeepsOrder Message.tag (fun msg ↦ tag == msg.tag) w.mailbox.msgs
  | .drop _ => True

/-- No `swap_remove` that step `e` of network.rs `Endpoint` makes from `w` moves an entry past
another entry of its own tag: `send` removes the first entry for the tag, `recv` the first parked
message with it. -/
def Endpoint.KeepsTagOrder (w : World Addr Data) : Event Addr Data → Prop
  | .deliver msg => FirstRemovalKeepsOrder Prod.fst (·.1 == msg.tag) w.mailbox.registered
  | .recv tag => FirstRemovalKeepsOrder Message.tag (fun msg ↦ tag == msg.tag) w.mailbox.msgs
  | .drop _ => True

instance (w : World Addr Data) (e : Event Addr Data) : Decidable (Mailbox.KeepsTagOrder w e) :=
  match e with
  | .deliver msg => inferInstanceAs
      (Decidable (Mailbox.deliverKeepsOrder msg w.mailbox.registered.length w = true))
  | .recv tag => inferInstanceAs (Decidable
      (FirstRemovalKeepsOrder Message.tag (fun msg : Message Addr Data ↦ tag == msg.tag)
        w.mailbox.msgs))
  | .drop _ => inferInstanceAs (Decidable True)

instance (w : World Addr Data) (e : Event Addr Data) : Decidable (Endpoint.KeepsTagOrder w e) :=
  match e with
  | .deliver msg => inferInstanceAs (Decidable
      (FirstRemovalKeepsOrder Prod.fst (fun e : UInt64 × RecvId ↦ e.1 == msg.tag)
        w.mailbox.registered))
  | .recv tag => inferInstanceAs (Decidable
      (FirstRemovalKeepsOrder Message.tag (fun msg : Message Addr Data ↦ tag == msg.tag)
        w.mailbox.msgs))
  | .drop _ => inferInstanceAs (Decidable True)

/-! ### Ranks and channels under the channel updates -/

theorem rank_append {tags : List UInt64} {rx : RecvId} (h : rx ≤ tags.length) (t : UInt64)
    (more : List UInt64) : rank t (tags ++ more) rx = rank t tags rx := by
  simp [rank, List.take_append_of_le_length h]

theorem rank_map_tag (t : UInt64) (receivers : List (Receiver Addr Data)) (rx : RecvId) :
    rank t (receivers.map Receiver.tag) rx = (receivers.take rx).countP (·.tag == t) := by
  simp [rank, List.count_eq_countP, ← List.map_take, List.countP_map, Function.comp_def]

theorem rank_length (t : UInt64) (receivers : List (Receiver Addr Data)) :
    rank t (receivers.map Receiver.tag) receivers.length =
      (receivers.filter (·.tag == t)).length := by
  rw [rank_map_tag, List.take_of_length_le le_rfl, List.countP_eq_length_filter]

theorem map_tag_modify {f : Receiver Addr Data → Receiver Addr Data} (hf : ∀ r, (f r).tag = r.tag) :
    ∀ (receivers : List (Receiver Addr Data)) (rx : RecvId),
      (receivers.modify f rx).map Receiver.tag = receivers.map Receiver.tag
  | [], _ => by simp
  | r :: receivers, 0 => by simp [List.modify_zero_cons, hf]
  | r :: receivers, rx + 1 => by simp [List.modify_succ_cons, map_tag_modify hf receivers rx]

/-- A channel update that keeps tags touches, in the view of tag `t`, the channel of the same
rank, or nothing if the channel has another tag. -/
theorem filter_tag_modify {f : Receiver Addr Data → Receiver Addr Data}
    (hf : ∀ r, (f r).tag = r.tag) {receivers : List (Receiver Addr Data)} {rx : RecvId}
    {r : Receiver Addr Data} (hr : receivers[rx]? = some r) (t : UInt64) :
    (receivers.modify f rx).filter (·.tag == t) =
      if r.tag = t then
        (receivers.filter (·.tag == t)).modify f (rank t (receivers.map Receiver.tag) rx)
      else receivers.filter (·.tag == t) := by
  split <;> rename_i h
  · rw [rank_map_tag]
    exact filter_modify_of_pos (by simp [hf]) _ _ (by simp [hr, h])
  · exact filter_modify_of_neg (by simp [hf]) _ _ (by simp [hr, h])

theorem alive_view_rank {w : World Addr Data} {rx : RecvId} {r : Receiver Addr Data}
    (hr : w.receivers[rx]? = some r) :
    (w.view r.tag).alive (rank r.tag (w.receivers.map Receiver.tag) rx) = !r.dropped := by
  have h : (w.receivers.filter (·.tag == r.tag))[(w.receivers.take rx).countP (·.tag == r.tag)]? =
      some r := getElem?_filter_countP_take _ _ hr (by simp)
  simp [rank_map_tag, TagQueue.alive, World.view, h]

/-- The channel update of a send into a live receiver, as a `modify`. -/
theorem set_eq_modify_fill {receivers : List (Receiver Addr Data)} {rx : RecvId}
    {r : Receiver Addr Data} (hr : receivers[rx]? = some r) (hlive : r.dropped = false)
    (msg : Message Addr Data) :
    receivers.set rx { r with value := some msg } = receivers.modify (Receiver.fill msg) rx := by
  apply List.ext_getElem?
  intro n
  rw [List.getElem?_set, List.getElem?_modify]
  by_cases h : rx = n
  · subst h
    simp [hr, Receiver.fill, hlive, (List.getElem?_eq_some_iff.1 hr).1]
  · simp [h]

theorem modify_fill_of_gone {receivers : List (Receiver Addr Data)} {rx : RecvId}
    (hgone : Gone receivers rx) (msg : Message Addr Data) :
    receivers.modify (Receiver.fill msg) rx = receivers := by
  apply List.ext_getElem?
  intro n
  rw [List.getElem?_modify]
  by_cases h : rx = n
  · subst h
    cases hr : receivers[rx]? with
    | none => rfl
    | some r => simp [Receiver.fill, hgone r hr]
  · simp [h]

/-! ### tcp.rs `deliver`, entry by entry -/

section Deliver

variable {w : World Addr Data} {m : Message Addr Data}

/-- The scan at a dead entry for the tag: the entry is swap-removed and the message comes back. -/
theorem deliverLoop_at_dead {pre rest : List (UInt64 × RecvId)} {rx : RecvId}
    (hreg : w.mailbox.registered = pre ++ (m.tag, rx) :: rest) (hgone : Gone w.receivers rx) :
    Mailbox.deliverLoop pre.length (some m) w = Mailbox.deliverLoop pre.length (some m)
      ⟨{ w.mailbox with registered := pre ++ (rest.getLast?.toList ++ rest.dropLast) },
        w.receivers⟩ := by
  have hlt : pre.length < w.mailbox.registered.length := by simp [hreg]
  have hget : w.mailbox.registered[pre.length] = (m.tag, rx) := by
    simp [hreg, List.getElem_append_right]
  have hs := swapRemove_append_cons pre rest (m.tag, rx)
  rw [← hreg] at hs
  rw [Mailbox.deliverLoop, dif_pos hlt]
  simp only [hget, beq_self_eq_true, if_true]
  split <;> rename_i heq
  · rw [hs, Option.some.injEq, Prod.mk.injEq, Prod.mk.injEq] at heq
    obtain ⟨⟨-, rfl⟩, rfl⟩ := heq
    rw [oneshotSend_eq_error_iff.2 ⟨rfl, hgone⟩]
  · simp [hs] at heq

/-- `deliver` skips a prefix with other tags. -/
theorem deliver_eq_deliverLoop {v : World Addr Data} {pre suffix : List (UInt64 × RecvId)}
    (hreg : v.mailbox.registered = pre ++ suffix) (hpre : ∀ e ∈ pre, e.1 ≠ m.tag) :
    Mailbox.deliver m v = Mailbox.deliverLoop pre.length (some m) v := by
  refine deliverLoop_skip 0 pre.length (Nat.zero_le _) (by simp [hreg]) fun j hj _ hjk ↦ ?_
  have hmem : v.mailbox.registered[j] ∈ pre := by
    simp only [hreg, List.getElem_append_left hjk]
    exact List.getElem_mem _
  exact hpre _ hmem

theorem deliver_of_no_entry (hnone : ∀ e ∈ w.mailbox.registered, e.1 ≠ m.tag) :
    Mailbox.deliver m w = some ⟨{ w.mailbox with msgs := w.mailbox.msgs ++ [m] }, w.receivers⟩ := by
  rw [deliver_eq_deliverLoop (List.append_nil _).symm hnone, deliverLoop_end]

theorem deliver_of_first_live {pre rest : List (UInt64 × RecvId)} {rx : RecvId}
    {r : Receiver Addr Data} (hreg : w.mailbox.registered = pre ++ (m.tag, rx) :: rest)
    (hpre : ∀ e ∈ pre, e.1 ≠ m.tag) (hrx : w.receivers[rx]? = some r) (hlive : r.dropped = false) :
    Mailbox.deliver m w =
      some ⟨{ w.mailbox with registered := pre ++ (rest.getLast?.toList ++ rest.dropLast) },
        w.receivers.set rx { r with value := some m }⟩ := by
  rw [deliver_eq_deliverLoop hreg hpre, deliverLoop_at_live hreg hrx hlive]

/-- When the first entry for the tag names a receiver that is gone, the entry leaves `registered`
and the delivery starts over. -/
theorem deliver_of_first_gone {pre rest : List (UInt64 × RecvId)} {rx : RecvId}
    (hreg : w.mailbox.registered = pre ++ (m.tag, rx) :: rest) (hpre : ∀ e ∈ pre, e.1 ≠ m.tag)
    (hgone : Gone w.receivers rx) :
    Mailbox.deliver m w = Mailbox.deliver m
      ⟨{ w.mailbox with registered := pre ++ (rest.getLast?.toList ++ rest.dropLast) },
        w.receivers⟩ := by
  rw [deliver_eq_deliverLoop hreg hpre, deliverLoop_at_dead hreg hgone,
    deliver_eq_deliverLoop rfl hpre]

end Deliver

/-! ### Each operation as a step of the tag's queues -/

section View

variable {w : World Addr Data}

theorem view_park (m : Message Addr Data) (t : UInt64) :
    (⟨{ w.mailbox with msgs := w.mailbox.msgs ++ [m] }, w.receivers⟩ : World Addr Data).view t =
      if m.tag = t then { w.view t with pending := (w.view t).pending ++ [m] } else w.view t := by
  split <;> simp [World.view, *]

/-- Taking the first entry for `tag` out of `registered` without moving another, while the
channels keep their tags: the tag's first waiter leaves its queue. -/
theorem view_waiters_erase {pre rest : List (UInt64 × RecvId)} {tag : UInt64} {rx : RecvId}
    (hreg : w.mailbox.registered = pre ++ (tag, rx) :: rest) (hpre : ∀ e ∈ pre, e.1 ≠ tag)
    (t : UInt64) :
    ((pre ++ rest).filter (·.1 == t)).map (fun e ↦ rank t (w.receivers.map Receiver.tag) e.2) =
      if tag = t then (w.view t).waiters.tail else (w.view t).waiters := by
  split <;> rename_i h
  · subst h
    have hnil : pre.filter (·.1 == tag) = [] := List.filter_eq_nil_iff.2 (by simpa using hpre)
    simp [World.view, hreg, hnil]
  · simp [World.view, hreg, h]

/-- The rank of the first entry for `tag` heads the tag's waiters. -/
theorem view_waiters_eq_cons {pre rest : List (UInt64 × RecvId)} {tag : UInt64} {rx : RecvId}
    (hreg : w.mailbox.registered = pre ++ (tag, rx) :: rest) (hpre : ∀ e ∈ pre, e.1 ≠ tag) :
    (w.view tag).waiters =
      rank tag (w.receivers.map Receiver.tag) rx :: (w.view tag).waiters.tail := by
  have hnil : pre.filter (·.1 == tag) = [] := List.filter_eq_nil_iff.2 (by simpa using hpre)
  simp [World.view, hreg, hnil]

/-- Taking the first entry for the message's tag out of `registered` without moving another, and
sending into its channel: the tag's first waiter leaves its queue and its channel is filled. -/
theorem view_serve (hw : Inv w) {m : Message Addr Data} {pre rest : List (UInt64 × RecvId)}
    {rx : RecvId} (hreg : w.mailbox.registered = pre ++ (m.tag, rx) :: rest)
    (hpre : ∀ e ∈ pre, e.1 ≠ m.tag) (t : UInt64) :
    (⟨{ w.mailbox with registered := pre ++ rest }, w.receivers.modify (Receiver.fill m) rx⟩ :
      World Addr Data).view t =
      if m.tag = t then
        { w.view t with
          waiters := (w.view t).waiters.tail
          receivers := (w.view t).receivers.modify (Receiver.fill m)
            (rank t (w.receivers.map Receiver.tag) rx) }
      else w.view t := by
  obtain ⟨r, hrx, hrtag, -⟩ := hw.registered_open (m.tag, rx) (by simp [hreg])
  have hrecv := filter_tag_modify (Receiver.fill_tag m) hrx t
  have hwait := view_waiters_erase hreg hpre t
  rw [hrtag] at hrecv
  conv_lhs => unfold World.view
  simp only [map_tag_modify (Receiver.fill_tag m)]
  split <;> rename_i h
  · rw [if_pos h] at hwait hrecv
    rw [hwait, hrecv]
    rfl
  · rw [if_neg h] at hwait hrecv
    rw [hwait, hrecv]
    rfl


theorem view_waiters_nil {tag : UInt64} (hnone : ∀ e ∈ w.mailbox.registered, e.1 ≠ tag) :
    (w.view tag).waiters = [] := by
  have hnil : w.mailbox.registered.filter (·.1 == tag) = [] :=
    List.filter_eq_nil_iff.2 (by simpa using hnone)
  simp [World.view, hnil]

/-- Where `swap_remove` keeps each tag's order, the view sees the entry taken out of `registered`
in place. -/
theorem view_swap_registered {mb : Mailbox Addr Data} {receivers : List (Receiver Addr Data)}
    {pre rest : List (UInt64 × RecvId)} {x : UInt64 × RecvId}
    (h : SwapKeepsOrder Prod.fst (pre ++ x :: rest) pre.length) (t : UInt64) :
    (⟨{ mb with registered := pre ++ (rest.getLast?.toList ++ rest.dropLast) }, receivers⟩ :
      World Addr Data).view t =
      (⟨{ mb with registered := pre ++ rest }, receivers⟩ : World Addr Data).view t := by
  simp only [World.view, filter_swapRemove h t]

/-- Where `swap_remove` keeps each tag's order, the view sees the message taken out of `msgs` in
place. -/
theorem view_swap_msgs {mb : Mailbox Addr Data} {receivers : List (Receiver Addr Data)}
    {pre rest : List (Message Addr Data)} {x : Message Addr Data}
    (h : SwapKeepsOrder Message.tag (pre ++ x :: rest) pre.length) (t : UInt64) :
    (⟨{ mb with msgs := pre ++ (rest.getLast?.toList ++ rest.dropLast) }, receivers⟩ :
      World Addr Data).view t =
      (⟨{ mb with msgs := pre ++ rest }, receivers⟩ : World Addr Data).view t := by
  simp only [World.view, filter_swapRemove h t]

/-- tcp.rs `deliver` when no entry has the tag: the message joins the end of the tag's queue. -/
theorem view_deliver_of_no_entry {m : Message Addr Data}
    (hnone : ∀ e ∈ w.mailbox.registered, e.1 ≠ m.tag) (t : UInt64) :
    ∃ w', Mailbox.deliver m w = some w' ∧
      w'.receivers.map Receiver.tag = w.receivers.map Receiver.tag ∧
      w'.view t = if m.tag = t then (w.view t).deliverStd m else w.view t := by
  refine ⟨_, deliver_of_no_entry hnone, rfl, ?_⟩
  rw [view_park]
  split <;> rename_i h
  · subst h
    simp [TagQueue.deliverStd, view_waiters_nil hnone]
  · rfl

/-- tcp.rs `deliver` when the first entry of the tag is a live receiver: it is filled, which
serves the head of the tag's queue. -/
theorem view_deliver_at_live (hw : Inv w) {m : Message Addr Data}
    {pre rest : List (UInt64 × RecvId)} {rx : RecvId} {r : Receiver Addr Data}
    (hreg : w.mailbox.registered = pre ++ (m.tag, rx) :: rest) (hpre : ∀ e ∈ pre, e.1 ≠ m.tag)
    (hswap : SwapKeepsOrder Prod.fst (pre ++ (m.tag, rx) :: rest) pre.length)
    (hrx : w.receivers[rx]? = some r) (hrtag : r.tag = m.tag) (hd : r.dropped = false)
    (t : UInt64) :
    ∃ w', Mailbox.deliver m w = some w' ∧
      w'.receivers.map Receiver.tag = w.receivers.map Receiver.tag ∧
      w'.view t = if m.tag = t then (w.view t).deliverStd m else w.view t := by
  refine ⟨_, deliver_of_first_live hreg hpre hrx hd, ?_, ?_⟩
  · simp [set_eq_modify_fill hrx hd, map_tag_modify (Receiver.fill_tag m)]
  · rw [set_eq_modify_fill hrx hd, view_swap_registered hswap, view_serve hw hreg hpre]
    split <;> rename_i h
    · subst h
      have halive := alive_view_rank hrx
      rw [hrtag, hd] at halive
      unfold TagQueue.deliverStd
      rw [view_waiters_eq_cons hreg hpre, List.dropWhile_cons, if_neg (by simp [halive])]
      rfl
    · rfl

/-- tcp.rs `deliver` when the first entry of the tag is a receiver that is gone: taking the entry
out leaves the message to the same receiver of the tag's queue. -/
theorem view_deliver_past_gone (hw : Inv w) {m : Message Addr Data}
    {pre rest : List (UInt64 × RecvId)} {rx : RecvId} {r : Receiver Addr Data}
    (hreg : w.mailbox.registered = pre ++ (m.tag, rx) :: rest) (hpre : ∀ e ∈ pre, e.1 ≠ m.tag)
    (hswap : SwapKeepsOrder Prod.fst (pre ++ (m.tag, rx) :: rest) pre.length)
    (hrx : w.receivers[rx]? = some r) (hrtag : r.tag = m.tag) (hd : r.dropped = true)
    (t : UInt64) :
    (if m.tag = t then
        ((⟨{ w.mailbox with registered := pre ++ (rest.getLast?.toList ++ rest.dropLast) },
          w.receivers⟩ : World Addr Data).view t).deliverStd m
      else (⟨{ w.mailbox with registered := pre ++ (rest.getLast?.toList ++ rest.dropLast) },
          w.receivers⟩ : World Addr Data).view t) =
      if m.tag = t then (w.view t).deliverStd m else w.view t := by
  have hv := view_serve hw hreg hpre t
  rw [modify_fill_of_gone (by simpa [Gone, hrx] using hd) m] at hv
  rw [view_swap_registered hswap, hv]
  split <;> rename_i h
  · subst h
    have hdead : (w.view m.tag).alive (rank m.tag (w.receivers.map Receiver.tag) rx) = false := by
      simpa [hrtag, hd] using alive_view_rank hrx
    rw [modify_fill_of_gone (TagQueue.gone_of_not_alive hdead)]
    exact TagQueue.deliverStd_of_dead_head (view_waiters_eq_cons hreg hpre) hdead m
  · rfl

/-- tcp.rs `deliver` as one step of the tag's queues, when none of the `swap_remove`s it makes
moves an entry past another of its own tag. -/
theorem view_deliver (m : Message Addr Data) (t : UInt64) :
    ∀ (fuel : ℕ) (w : World Addr Data), w.mailbox.registered.length ≤ fuel → Inv w →
      Mailbox.deliverKeepsOrder m fuel w = true →
      ∃ w', Mailbox.deliver m w = some w' ∧
        w'.receivers.map Receiver.tag = w.receivers.map Receiver.tag ∧
        w'.view t = if m.tag = t then (w.view t).deliverStd m else w.view t := by
  intro fuel
  induction fuel with
  | zero =>
    intro w hlen _ _
    exact view_deliver_of_no_entry (fun e he ↦ absurd (List.length_pos_of_mem he) (by omega)) t
  | succ fuel ih =>
    intro w hlen hw hkeep
    cases hfind : w.mailbox.registered.findIdx? (·.1 == m.tag) with
    | none =>
      exact view_deliver_of_no_entry
        (fun e he h ↦ by simpa [h] using List.findIdx?_eq_none_iff.1 hfind e he) t
    | some i =>
      obtain ⟨pre, ⟨tag, rx⟩, rest, hreg, rfl, hmatch, hpre⟩ :=
        findIdx?_eq_some_iff_append.1 hfind
      obtain rfl : tag = m.tag := beq_iff_eq.1 hmatch
      have hpre' : ∀ e ∈ pre, e.1 ≠ m.tag := fun e he h ↦ by simpa [h] using hpre e he
      have hs := swapRemove_append_cons pre rest (m.tag, rx)
      rw [← hreg] at hs
      simp only [Mailbox.deliverKeepsOrder, hfind, hs, Bool.and_eq_true, decide_eq_true_eq] at hkeep
      obtain ⟨hswap, hnext⟩ := hkeep
      rw [hreg] at hswap
      obtain ⟨r, hrx, hrtag, -⟩ := hw.registered_open (m.tag, rx) (by simp [hreg])
      cases hd : r.dropped
      · exact view_deliver_at_live hw hreg hpre' hswap hrx hrtag hd t
      · have hgone : Gone w.receivers rx := by simpa [Gone, hrx] using hd
        rw [oneshotSend_eq_error_iff.2 ⟨rfl, hgone⟩] at hnext
        have hlen₁ : (pre ++ (rest.getLast?.toList ++ rest.dropLast)).length ≤ fuel := by
          have := length_of_swapRemove hs
          omega
        have hw₁ : Inv (⟨{ w.mailbox with
            registered := pre ++ (rest.getLast?.toList ++ rest.dropLast) }, w.receivers⟩ :
              World Addr Data) :=
          hw.shrink [(m.tag, rx)] (perm_of_swapRemove hs) (fun _ h ↦ h) rfl
        obtain ⟨w', hd', htags, hview⟩ := ih _ hlen₁ hw₁ hnext
        rw [deliver_of_first_gone hreg hpre' hgone]
        exact ⟨w', hd', htags,
          hview.trans (view_deliver_past_gone hw hreg hpre' hswap hrx hrtag hd t)⟩

/-- network.rs `Endpoint::send` as one step of the tag's queues, when the `swap_remove` it makes
moves no entry past another of its own tag. -/
theorem view_send (hw : Inv w) {m : Message Addr Data}
    (hkeep : FirstRemovalKeepsOrder Prod.fst (·.1 == m.tag) w.mailbox.registered) (t : UInt64) :
    ∃ w', Endpoint.send m w = some w' ∧
      w'.receivers.map Receiver.tag = w.receivers.map Receiver.tag ∧
      w'.view t = if m.tag = t then (w.view t).deliverSim m else w.view t := by
  obtain ⟨w', hsend, hcase⟩ := send_spec m w
  refine ⟨w', hsend, ?_⟩
  rcases hcase with ⟨pre, rx, rest, hreg, hpre, hmb, hrecv⟩ | ⟨hnone, rfl⟩
  · have hrecv' : w'.receivers = w.receivers.modify (Receiver.fill m) rx := by
      rcases hrecv with ⟨r, hrx, hl, h⟩ | ⟨hgone, h⟩
      · rw [h, set_eq_modify_fill hrx hl]
      · rw [h, modify_fill_of_gone hgone]
    rw [hreg] at hkeep
    have hswap := hkeep.at (by simp) fun e he ↦ by simpa using hpre e he
    obtain ⟨mailbox', receivers'⟩ := w'
    simp only at hmb hrecv'
    subst hmb hrecv'
    refine ⟨map_tag_modify (Receiver.fill_tag m) _ _, ?_⟩
    rw [view_swap_registered hswap, view_serve hw hreg hpre]
    split <;> rename_i h
    · subst h
      unfold TagQueue.deliverSim
      rw [view_waiters_eq_cons hreg hpre]
      rfl
    · rfl
  · refine ⟨rfl, ?_⟩
    rw [view_park]
    split <;> rename_i h
    · subst h
      simp [TagQueue.deliverSim, view_waiters_nil hnone]
    · rfl

/-- `recv(tag)` as one step of the tag's queues, when the `swap_remove` it makes moves no parked
message past another of its own tag. -/
theorem view_takeOrRegister (hw : Inv w) {tag : UInt64}
    (hkeep : FirstRemovalKeepsOrder Message.tag (fun msg ↦ tag == msg.tag) w.mailbox.msgs)
    (t : UInt64) :
    ∃ w', (Mailbox.takeOrRegister tag w).map Prod.fst = some w' ∧
      w'.receivers.map Receiver.tag = w.receivers.map Receiver.tag ++ [tag] ∧
      w'.view t = if tag = t then (w.view t).recv t else w.view t := by
  obtain ⟨w', h, hcase⟩ := takeOrRegister_spec tag w
  refine ⟨w', by simp [h], ?_⟩
  have hrank : ∀ a b, (a, b) ∈ w.mailbox.registered → a = t →
      rank t (w.receivers.map Receiver.tag ++ [tag]) b = rank t (w.receivers.map Receiver.tag) b :=
    fun a b hab _ ↦ rank_append (by simpa using (hw.lt_length hab).le) t [tag]
  rcases hcase with ⟨pre, m, rest, hmsgs, rfl, hpre, rfl⟩ | ⟨hnone, rfl⟩
  · rw [hmsgs] at hkeep
    have hswap := hkeep.at (by simp) fun y hy ↦ beq_false_of_ne (hpre y hy).symm
    refine ⟨by simp, ?_⟩
    rw [view_swap_msgs hswap]
    have hnil : pre.filter (·.tag == m.tag) = [] := List.filter_eq_nil_iff.2 (by simpa using hpre)
    split <;> rename_i h
    · subst h
      simpa [World.view, TagQueue.recv, hmsgs, hnil] using hrank
    · simpa [World.view, TagQueue.recv, hmsgs, h] using hrank
  · refine ⟨by simp, ?_⟩
    split <;> rename_i h
    · subst h
      have hnil : w.mailbox.msgs.filter (·.tag == tag) = [] :=
        List.filter_eq_nil_iff.2 fun m hm ↦ by simpa using hnone m hm
      simpa [World.view, TagQueue.recv, hnil, rank_append, rank_length] using hrank
    · simpa [World.view, TagQueue.recv, h] using hrank

/-- A drop as one step of the tag of the dropped receiver. -/
theorem view_drop (rx : RecvId) (t : UInt64) :
    (w.drop rx).view t =
      if (w.receivers.map Receiver.tag)[rx]? = some t then
        (w.view t).drop (rank t (w.receivers.map Receiver.tag) rx)
      else w.view t := by
  have htags := @map_tag_modify Addr Data (fun r ↦ { r with dropped := true }) (fun _ ↦ rfl)
    w.receivers rx
  cases hr : w.receivers[rx]? with
  | none =>
    have hlen : w.receivers.length ≤ rx := List.getElem?_eq_none_iff.1 hr
    simp [World.drop, List.modify_eq_self hlen, hr]
  | some r =>
    have hrecv := @filter_tag_modify Addr Data (fun r ↦ { r with dropped := true }) (fun _ ↦ rfl)
      _ _ _ hr t
    simp only [World.view, World.drop, htags, hrecv, List.getElem?_map, hr, Option.map_some',
      Option.some.injEq]
    split <;> rfl


/-- The event as tag `t` sees it, applied to the tag's queues. -/
theorem elim_tagEvent_deliver (t : UInt64) (tags : List UInt64) (m : Message Addr Data)
    (deliver : Message Addr Data → TagQueue Addr Data → TagQueue Addr Data)
    (q : TagQueue Addr Data) :
    (tagEvent t tags (.deliver m)).elim q (TagQueue.step deliver t q) =
      if m.tag = t then deliver m q else q := by
  by_cases h : m.tag = t <;> simp [tagEvent, h, TagQueue.step]

/-- One step of tcp.rs `Mailbox` whose `swap_remove`s keep each tag's order, as one step of each
tag's queues. -/
theorem view_mailbox_step (hw : Inv w) {e : Event Addr Data} (hkeep : Mailbox.KeepsTagOrder w e)
    (t : UInt64) :
    ∃ w', Mailbox.step w e = some w' ∧
      w'.receivers.map Receiver.tag = w.receivers.map Receiver.tag ++ recvTags [e] ∧
      w'.view t = (tagEvent t (w.receivers.map Receiver.tag) e).elim (w.view t)
        (TagQueue.step TagQueue.deliverStd t (w.view t)) := by
  cases e with
  | deliver m =>
    obtain ⟨w', hd, htags, hview⟩ := view_deliver m t _ w le_rfl hw hkeep
    exact ⟨w', hd, by simpa [recvTags] using htags, by rw [hview, elim_tagEvent_deliver]⟩
  | recv tag =>
    obtain ⟨w', hr, htags, hview⟩ := view_takeOrRegister hw hkeep t
    refine ⟨w', hr, by simpa [recvTags] using htags, ?_⟩
    rw [hview]
    by_cases h : tag = t <;> simp [tagEvent, h, TagQueue.step]
  | drop rx =>
    refine ⟨_, rfl, by simp [World.drop, recvTags, map_tag_modify], ?_⟩
    rw [view_drop]
    by_cases h : (w.receivers.map Receiver.tag)[rx]? = some t <;>
      simp only [tagEvent, h, if_true, if_false, Option.elim, TagQueue.step]

/-- One step of network.rs `Endpoint` whose `swap_remove` keeps each tag's order, as one step of
each tag's queues. -/
theorem view_endpoint_step (hw : Inv w) {e : Event Addr Data} (hkeep : Endpoint.KeepsTagOrder w e)
    (t : UInt64) :
    ∃ w', Endpoint.step w e = some w' ∧
      w'.receivers.map Receiver.tag = w.receivers.map Receiver.tag ++ recvTags [e] ∧
      w'.view t = (tagEvent t (w.receivers.map Receiver.tag) e).elim (w.view t)
        (TagQueue.step TagQueue.deliverSim t (w.view t)) := by
  cases e with
  | deliver m =>
    obtain ⟨w', hd, htags, hview⟩ := view_send hw hkeep t
    exact ⟨w', hd, by simpa [recvTags] using htags, by rw [hview, elim_tagEvent_deliver]⟩
  | recv tag =>
    obtain ⟨w', hr, htags, hview⟩ := view_takeOrRegister hw hkeep t
    refine ⟨w', hr, by simpa [recvTags] using htags, ?_⟩
    rw [hview]
    by_cases h : tag = t <;> simp [tagEvent, h, TagQueue.step]
  | drop rx =>
    refine ⟨_, rfl, by simp [World.drop, recvTags, map_tag_modify], ?_⟩
    rw [view_drop]
    by_cases h : (w.receivers.map Receiver.tag)[rx]? = some t <;>
      simp only [tagEvent, h, if_true, if_false, Option.elim, TagQueue.step]

end View

/-! ### Whole runs -/

section Runs

variable (step : World Addr Data → Event Addr Data → Option (World Addr Data))
  (deliver : Message Addr Data → TagQueue Addr Data → TagQueue Addr Data)
  (ok : World Addr Data → Event Addr Data → Prop)

/-- Along a run of a mailbox whose steps keep the invariant and, where they meet `ok`, are steps
of each tag's queues, the view of every tag is the tag's queues run on the tag's events. -/
theorem view_run (hinv : ∀ w e w', Inv w → step w e = some w' → Inv w')
    (hstep : ∀ (w : World Addr Data) e, Inv w → ok w e → ∀ t, ∃ w', step w e = some w' ∧
      w'.receivers.map Receiver.tag = w.receivers.map Receiver.tag ++ recvTags [e] ∧
      w'.view t = (tagEvent t (w.receivers.map Receiver.tag) e).elim (w.view t)
        (TagQueue.step deliver t (w.view t)))
    (t : UInt64) (evs : List (Event Addr Data)) (h : StepsMeet step World.empty ok evs) :
    ∃ w, evs.foldlM step World.empty = some w ∧
      w.view t = TagQueue.run deliver t (tagTrace t evs) := by
  have hP : ∀ evs w e, Inv w ∧ w.receivers.map Receiver.tag = recvTags evs ∧
      w.view t = TagQueue.run deliver t (tagTrace t evs) → ok w e →
      ∃ w', step w e = some w' ∧ Inv w' ∧ w'.receivers.map Receiver.tag = recvTags (evs ++ [e]) ∧
        w'.view t = TagQueue.run deliver t (tagTrace t (evs ++ [e])) := by
    rintro evs w e ⟨hw, htags, hview⟩ hok
    obtain ⟨w', hs, htags', hview'⟩ := hstep w e hw hok t
    refine ⟨w', hs, hinv w e w' hw hs, by rw [htags', htags, recvTags_append], ?_⟩
    rw [hview', tagTrace_append_singleton, TagQueue.run_append_toList, hview, htags]
  obtain ⟨w, hrun, -, -, hview⟩ := run_total_of_stepsMeet _ ⟨inv_empty, rfl, rfl⟩ hP evs h
  exact ⟨w, hrun, hview⟩

/-- Two runs with the same events for tag `t` reach the same view of `t`. -/
theorem view_run_agree (t : UInt64) {evs₁ evs₂ : List (Event Addr Data)}
    (htrace : tagTrace t evs₁ = tagTrace t evs₂)
    (hrun : ∀ evs, StepsMeet step World.empty ok evs → ∃ w,
      evs.foldlM step World.empty = some w ∧ w.view t = TagQueue.run deliver t (tagTrace t evs))
    (h₁ : StepsMeet step World.empty ok evs₁) (h₂ : StepsMeet step World.empty ok evs₂) :
    ∃ w₁ w₂, evs₁.foldlM step World.empty = some w₁ ∧ evs₂.foldlM step World.empty = some w₂ ∧
      (w₁.receivers.filter (·.tag == t)).map Receiver.value =
        (w₂.receivers.filter (·.tag == t)).map Receiver.value := by
  obtain ⟨w₁, hr₁, hv₁⟩ := hrun evs₁ h₁
  obtain ⟨w₂, hr₂, hv₂⟩ := hrun evs₂ h₂
  refine ⟨w₁, w₂, hr₁, hr₂, congrArg (List.map Receiver.value) ?_⟩
  exact congrArg TagQueue.receivers (hv₁.trans (htrace ▸ hv₂.symm))

end Runs

theorem view_mailbox_run (t : UInt64) (evs : List (Event Addr Data))
    (h : StepsMeet Mailbox.step World.empty Mailbox.KeepsTagOrder evs) :
    ∃ w, Mailbox.run evs = some w ∧ w.view t = TagQueue.run TagQueue.deliverStd t (tagTrace t evs) :=
  view_run _ _ _ (fun _ e _ hw ↦ hw.mailbox_step e) (fun _ _ hw hk t ↦ view_mailbox_step hw hk t)
    t evs h

theorem view_endpoint_run (t : UInt64) (evs : List (Event Addr Data))
    (h : StepsMeet Endpoint.step World.empty Endpoint.KeepsTagOrder evs) :
    ∃ w, Endpoint.run evs = some w ∧ w.view t = TagQueue.run TagQueue.deliverSim t (tagTrace t evs) :=
  view_run _ _ _ (fun _ e _ hw ↦ hw.endpoint_step e) (fun _ _ hw hk t ↦ view_endpoint_step hw hk t)
    t evs h

end MadsimNet
