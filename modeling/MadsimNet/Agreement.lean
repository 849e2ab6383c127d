import MadsimNet.Safety

/-!
# The two mailboxes agree while no waiting receiver is dropped

tcp.rs `Mailbox::deliver` scans `registered` and skips the entries whose receivers are gone;
network.rs `Endpoint::send` takes the first entry for the tag whatever its receiver. The two differ
only when the first entry for a delivered tag names a dropped receiver. This module shows that they
agree on every run in which no receiver is dropped while its entry is in `registered`.

`deliverLoop_skip` moves the scan over entries with other tags, `deliverLoop_at_live` is the scan
stopping at a live entry for the tag, and `deliverLoop_end` the scan running off the end.
Together they give `deliver_eq_send`: when every registered receiver is alive, `deliver` and
`send` return the same mailbox and channels. `AllLive` holds along every run that drops only
unregistered receivers (`DropsOnlyUnregistered`), and `mailbox_agrees_with_endpoint` concludes that
the two runs reach the same `registered`, `msgs` and channels after every step, so every message
goes to the same receiver in both.
-/

set_option autoImplicit false
set_option relaxedAutoImplicit false

namespace MadsimNet

variable {Addr Data : Type} {w : World Addr Data}

/-- Entries with other tags only advance the scan. -/
theorem deliverLoop_skip {m : Message Addr Data} (i k : ℕ) (hik : i ≤ k)
    (hk : k ≤ w.mailbox.registered.length)
    (hskip : ∀ j (hj : j < w.mailbox.registered.length), i ≤ j → j < k →
      w.mailbox.registered[j].1 ≠ m.tag) :
    Mailbox.deliverLoop i (some m) w = Mailbox.deliverLoop k (some m) w := by
  obtain ⟨n, h⟩ : ∃ n, k - i = n := ⟨_, rfl⟩
  induction n generalizing i with
  | zero => rw [Nat.le_antisymm hik (by omega)]
  | succ n ih =>
    have hi : i < w.mailbox.registered.length := by omega
    rw [Mailbox.deliverLoop, dif_pos hi]
    have hne := hskip i hi le_rfl (by omega)
    simp only [beq_iff_eq, Ne.symm hne, if_false]
    exact ih (i + 1) (by omega) (fun j hj h₁ h₂ ↦ hskip j hj (by omega) h₂) (by omega)

/-- The scan stops at a live entry for the tag: it is swap-removed and its channel takes the
message. -/
theorem deliverLoop_at_live {m : Message Addr Data} {pre rest : List (UInt64 × RecvId)}
    {rx : RecvId} {r : Receiver Addr Data}
    (hreg : w.mailbox.registered = pre ++ (m.tag, rx) :: rest)
    (hrx : w.receivers[rx]? = some r) (hlive : r.dropped = false) :
    Mailbox.deliverLoop pre.length (some m) w =
      some ⟨{ w.mailbox with registered := pre ++ (rest.getLast?.toList ++ rest.dropLast) },
        w.receivers.set rx { r with value := some m }⟩ := by
  have hlt : pre.length < w.mailbox.registered.length := by simp [hreg]
  have hget : w.mailbox.registered[pre.length] = (m.tag, rx) := by
    simp [hreg, List.getElem_append_right]
  have hs := swapRemove_append_cons pre rest (m.tag, rx)
  rw [← hreg] at hs
  rw [Mailbox.deliverLoop, dif_pos hlt]
  simp only [hget, beq_self_eq_true, if_true]
  split <;> rename_i heq
  · rw [hs, Option.some.injEq, Prod.mk.injEq, Prod.mk.injEq] at heq
    obtain ⟨⟨-, rfl⟩, rfl⟩ := heq
    simp [oneshotSend, hrx, hlive]
  · simp [hs] at heq

/-- A scan past the last entry parks the message. -/
theorem deliverLoop_end {m : Message Addr Data} :
    Mailbox.deliverLoop w.mailbox.registered.length (some m) w =
      some ⟨{ w.mailbox with msgs := w.mailbox.msgs ++ [m] }, w.receivers⟩ := by
  rw [Mailbox.deliverLoop, dif_neg (lt_irrefl _)]

/-- Every registered entry names a live receiver. -/
def AllLive (w : World Addr Data) : Prop :=
  ∀ e ∈ w.mailbox.registered, ∃ r, w.receivers[e.2]? = some r ∧ r.dropped = false

/-- Assumes: every registered receiver is alive. Then tcp.rs `deliver` and network.rs `send` do
the same. -/
theorem deliver_eq_send (hlive : AllLive w) (m : Message Addr Data) :
    Mailbox.deliver m w = Endpoint.send m w := by
  obtain ⟨w', hsend, hcase⟩ := send_spec m w
  rw [hsend, Mailbox.deliver]
  obtain ⟨mailbox', receivers'⟩ := w'
  rcases hcase with ⟨pre, rx, rest, hreg, hpre, hmb, ⟨r, hrx, hl, hrecv⟩ | ⟨hgone, -⟩⟩ | ⟨hnone, h⟩
  · simp only at hmb hrecv
    subst hmb hrecv
    rw [deliverLoop_skip 0 pre.length (Nat.zero_le _) (by simp [hreg]) (fun j hj _ hjk ↦ ?_),
      deliverLoop_at_live hreg hrx hl]
    have hmem : w.mailbox.registered[j] ∈ pre := by
      simp only [hreg, List.getElem_append_left hjk]
      exact List.getElem_mem _
    exact hpre _ hmem
  · obtain ⟨r, hrx, hl⟩ := hlive (m.tag, rx) (by simp [hreg])
    simp [hgone r hrx] at hl
  · rw [deliverLoop_skip 0 _ (Nat.zero_le _) le_rfl (fun j hj _ _ ↦ hnone _ (List.getElem_mem _)),
      deliverLoop_end, h]

theorem allLive_deliverEffect {w' : World Addr Data} (hw : Inv w) (hl : AllLive w)
    {m : Message Addr Data} (h : DeliverEffect m w w') : AllLive w' := by
  obtain ⟨dead, -, ⟨rx, r, hrx, -, hreg, -, hrecv⟩ | ⟨hreg, -, -, hrecv⟩⟩ := h
  · have hnodup := (hreg.map Prod.snd).nodup_iff.1 hw.registered_nodup
    simp only [List.map_append, List.map_cons, List.nodup_append, List.nodup_cons] at hnodup
    intro e he
    have hne : rx ≠ e.2 := fun h ↦ hnodup.2.1.1 (h ▸ List.mem_map_of_mem Prod.snd he)
    rw [hrecv, List.getElem?_set_ne hne]
    exact hl e (hreg.symm.subset (by simp [he]))
  · intro e he
    rw [hrecv]
    exact hl e (hreg.symm.subset (List.mem_append_right _ he))

theorem allLive_takeOrRegister {w' : World Addr Data} {tag : UInt64} {rx : RecvId}
    (hw : Inv w) (hl : AllLive w) (h : Mailbox.takeOrRegister tag w = some (w', rx)) :
    AllLive w' := by
  obtain ⟨w'', h', hcase⟩ := takeOrRegister_spec tag w
  rw [h', Option.some.injEq, Prod.mk.injEq] at h
  obtain ⟨rfl, -⟩ := h
  have hold : ∀ e ∈ w.mailbox.registered, ∀ value : Option (Message Addr Data),
      ∃ r, (w.receivers ++ [⟨tag, value, false⟩])[e.2]? = some r ∧ r.dropped = false :=
    fun e he _ ↦ by simpa [List.getElem?_append_left (hw.lt_length he)] using hl e he
  rcases hcase with ⟨-, m, -, -, -, -, rfl⟩ | ⟨-, rfl⟩
  · exact fun e he ↦ hold e he (some m)
  · intro e he
    rcases List.mem_append.1 he with he | he
    · exact hold e he none
    · rw [List.mem_singleton] at he
      subst he
      exact ⟨_, List.getElem?_concat_length _ _, rfl⟩

theorem allLive_drop (hl : AllLive w) {rx : RecvId}
    (hfree : ∀ e ∈ w.mailbox.registered, e.2 ≠ rx) : AllLive (w.drop rx) := by
  intro e he
  simpa [World.drop, List.getElem?_modify_ne _ _ (hfree e he).symm] using hl e he

/-- Along the std-mode run, a receiver is dropped only when no entry of `registered` names it. -/
def DropsOnlyUnregistered (evs : List (Event Addr Data)) : Prop :=
  ∀ pre rx post w, evs = pre ++ .drop rx :: post → Mailbox.run pre = some w →
    ∀ e ∈ w.mailbox.registered, e.2 ≠ rx

theorem DropsOnlyUnregistered.append_left {evs evs' : List (Event Addr Data)}
    (h : DropsOnlyUnregistered (evs ++ evs')) : DropsOnlyUnregistered evs :=
  fun pre rx post w heq ↦ h pre rx (post ++ evs') w (by simp [heq])

/-- The two runs coincide, and the common state satisfies the invariant with every registered
receiver alive. -/
theorem run_agree (evs : List (Event Addr Data)) (h : DropsOnlyUnregistered evs) :
    ∃ w, Mailbox.run evs = some w ∧ Endpoint.run evs = some w ∧ Inv w ∧ AllLive w := by
  induction evs using List.reverseRecOn with
  | nil => exact ⟨World.empty, rfl, rfl, inv_empty, by simp [AllLive, World.empty]⟩
  | append_singleton evs e ih =>
    obtain ⟨w, hstd, hsim, hw, hl⟩ := ih h.append_left
    have hstep : ∃ w', Mailbox.step w e = some w' ∧ Endpoint.step w e = some w' ∧ AllLive w' := by
      cases e with
      | deliver m =>
        obtain ⟨w', hd, heff⟩ := deliver_effect m w
        refine ⟨w', hd, ?_, allLive_deliverEffect hw hl heff⟩
        show Endpoint.send m w = some w'
        rw [← deliver_eq_send hl m]
        exact hd
      | recv tag =>
        obtain ⟨w', hr, -⟩ := takeOrRegister_spec tag w
        exact ⟨w', by simp [Mailbox.step, Mailbox.recv, hr],
          by simp [Endpoint.step, Endpoint.recv, hr], allLive_takeOrRegister hw hl hr⟩
      | drop rx => exact ⟨_, rfl, rfl, allLive_drop hl (h evs rx [] w rfl hstd)⟩
    obtain ⟨w', hstd', hsim', hl'⟩ := hstep
    refine ⟨w', ?_, ?_, hw.mailbox_step e hstd', hl'⟩
    · rw [Mailbox.run_append_singleton, hstd, Option.some_bind, hstd']
    · rw [Endpoint.run_append_singleton, hsim, Option.some_bind, hsim']

/-- On every run from the empty mailbox in which no receiver is dropped while its entry is in
`registered`, tcp.rs `Mailbox` and network.rs `Endpoint` reach the same `registered` and `msgs`
lists and the same channels after every step, so each message is handed to the same receiver. -/
theorem mailbox_agrees_with_endpoint (evs : List (Event Addr Data))
    (h : DropsOnlyUnregistered evs) (k : ℕ) :
    Mailbox.run (evs.take k) = Endpoint.run (evs.take k) := by
  have hk : DropsOnlyUnregistered (evs.take k) := by
    rw [← List.take_append_drop k evs] at h
    exact h.append_left
  obtain ⟨w, hstd, hsim, -⟩ := run_agree _ hk
  rw [hstd, hsim]

unseal Mailbox.deliverLoop in
/-- Receiver 0 takes the first message, is dropped once served, and a second message then reaches
the second `recv(1)` in both mailboxes. -/
theorem mailbox_agrees_with_endpoint_after_served_drop :
    DropsOnlyUnregistered ([.recv 1, .deliver ⟨1, 7, 0⟩, .drop 0, .deliver ⟨1, 8, 0⟩, .recv 1] :
      List (Event ℕ ℕ)) ∧
    Mailbox.run ([.recv 1, .deliver ⟨1, 7, 0⟩, .drop 0, .deliver ⟨1, 8, 0⟩, .recv 1] :
      List (Event ℕ ℕ)) =
    Endpoint.run [.recv 1, .deliver ⟨1, 7, 0⟩, .drop 0, .deliver ⟨1, 8, 0⟩, .recv 1] := by
  have hdrops : DropsOnlyUnregistered ([.recv 1, .deliver ⟨1, 7, 0⟩, .drop 0, .deliver ⟨1, 8, 0⟩,
      .recv 1] : List (Event ℕ ℕ)) := by
    intro pre rx post w heq hrun
    rcases pre with _ | ⟨a, _ | ⟨b, _ | ⟨_, _ | ⟨_, _ | ⟨_, _⟩⟩⟩⟩⟩ <;>
      simp only [List.cons_append, List.nil_append, List.cons.injEq, reduceCtorEq, false_and,
        and_false, List.nil_eq, List.append_eq_nil, Event.drop.injEq, Event.deliver.injEq] at heq
    obtain ⟨rfl, rfl, rfl, rfl⟩ := heq
    have hw : w = ⟨⟨[], []⟩, [⟨1, some ⟨1, 7, 0⟩, false⟩]⟩ := Option.some.inj (hrun.symm.trans rfl)
    subst hw
    simp
  exact ⟨hdrops, mailbox_agrees_with_endpoint _ hdrops 5⟩

end MadsimNet
