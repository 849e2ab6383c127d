import MadsimNet.Std.Connection

/-!
# Std-mode endpoints end to end

`Std.Connection` proves what holds of each connection and each mailbox along a run. This module
reads off it what a user of tcp.rs relies on, from one endpoint's `send_to` to another's
`recv_from`, and what `get_or_connect` does to the sender tables.

`StdNet.read_shape` says what a turn of a reading task can do: replace one direction of one
connection, set the acceptor's `peer` when it reads the handshake (`Conn.Reshaped`), and add to a
sender table.

`one_connection_per_destination` is about `get_or_connect`: along every run, no endpoint has
opened two connections to one address. `RoutesOk` is the invariant behind it: the sender table of
the endpoint that opened a connection keeps an entry for the address it dialled. `get_or_connect`
adds that entry, and the acceptor's `HashMap::insert` may replace the entry for an address, the
connection it names with the accepted one, but never removes an address (`SendersGrow`), so the
table's lookup finds an entry before a second connection could be opened.

`sendsTo` is the message a `send_to` call addresses to an endpoint: its tag, its slices joined and
the caller's address. `ConnOk.written_sendsTo` compares, direction by direction, what a connection
has delivered to an endpoint with what was written into it for the endpoint's address: the
delivered messages first, then those still in flight. `std_mailboxes_hold_sends` is safety: along
every admissible run, what each mailbox holds, parked or accepted by a channel, is, as a
multiset, among the messages the run's `send_to` calls addressed to it (`StdInv.inbox_sublist`).
`std_delivers_every_send` is the other direction: from the end of any admissible run, reading
every direction until it carries nothing more brings each mailbox to hold exactly those messages
(`StdInv.inbox_of_pending`). The directions are drained one after another (`StdInv.drainAll`),
and a read of one leaves every other as drained as it was (`StdNet.read_drained`).
-/

set_option autoImplicit false
set_option relaxedAutoImplicit false

namespace MadsimNet

variable {Addr : Type}

/-! ### What a step does to the connections and the sender tables -/

/-- Every endpoint is still there, and its sender table still has an entry for every address it
had one for. -/
def SendersGrow (nodes nodes' : List (Node Addr)) : Prop :=
  ∀ (k : ℕ) (node : Node Addr), nodes[k]? = some node →
    ∃ node', nodes'[k]? = some node' ∧ node.sender.map Prod.fst ⊆ node'.sender.map Prod.fst

theorem SendersGrow.refl (nodes : List (Node Addr)) : SendersGrow nodes nodes :=
  fun _ node h ↦ ⟨node, h, List.Subset.refl _⟩

theorem SendersGrow.set {nodes : List (Node Addr)} {k : ℕ} {node node' : Node Addr}
    (hk : nodes[k]? = some node) (hsub : node.sender.map Prod.fst ⊆ node'.sender.map Prod.fst) :
    SendersGrow nodes (nodes.set k node') := fun j x hj ↦ by
  by_cases hjk : j = k
  · subst hjk
    obtain rfl := Option.some.inj (hk.symm.trans hj)
    exact ⟨node', List.getElem?_set_self (List.getElem?_eq_some_iff.1 hk).1, hsub⟩
  · exact ⟨x, by rw [List.getElem?_set_ne (Ne.symm hjk)]; exact hj, List.Subset.refl _⟩

theorem SendersGrow.append (nodes more : List (Node Addr)) : SendersGrow nodes (nodes ++ more) :=
  fun _ node hk ↦ ⟨node, by rw [List.getElem?_append_left (List.getElem?_eq_some_iff.1 hk).1]; exact hk,
    List.Subset.refl _⟩

/-- `conn'` is `conn` with at most direction `d` changed, and its `peer` only if `d` is `up`: the
same ends, and the other direction as it was. -/
structure Conn.Reshaped (d : Dir) (conn conn' : Conn Addr) : Prop where
  connector : conn'.connector = conn.connector
  dst : conn'.dst = conn.dst
  src : conn'.src = conn.src
  pipe : ∀ d', d' ≠ d → conn'.pipe d' = conn.pipe d'
  peer : d = .down → conn'.peer = conn.peer

theorem Conn.reshaped_setPipe (conn : Conn Addr) (d : Dir) (p : Pipe) :
    conn.Reshaped d (conn.setPipe d p) :=
  ⟨by cases d <;> rfl, by cases d <;> rfl, by cases d <;> rfl,
    fun _ hd ↦ Conn.pipe_setPipe_of_ne _ (Ne.symm hd) _, fun _ ↦ by cases d <;> rfl⟩

section Shape

variable {text : Addr → List UInt8} {parse : List UInt8 → Option Addr}
  {write : ℕ → List (List UInt8) → ℕ} {s s' : StdNet Addr} {c n : ℕ} {d : Dir}

/-! ### One connection per endpoint and destination -/

/-- The route of a connection: the endpoint that opened it and the address it dialled. -/
def Conn.route (conn : Conn Addr) : ℕ × Addr := (conn.connector, conn.dst)

/-- The sender tables and the connections agree: the table of the endpoint that opened a
connection has an entry for the address it dialled, and no two connections have one route. -/
structure RoutesOk (s : StdNet Addr) : Prop where
  registered : ∀ (c : ℕ) (conn : Conn Addr), s.conns[c]? = some conn →
    ∃ node, s.nodes[conn.connector]? = some node ∧ conn.dst ∈ node.sender.map Prod.fst
  unique : (s.conns.map Conn.route).Nodup

theorem routesOk_empty [DecidableEq Addr] : RoutesOk (StdNet.empty : StdNet Addr) :=
  ⟨fun _ _ h ↦ by simp [StdNet.empty] at h, List.nodup_nil⟩

/-- A step that keeps every connection's route and removes no address from a sender table keeps
`RoutesOk`. -/
theorem RoutesOk.of_routes (h : RoutesOk s) (hroutes : s'.conns.map Conn.route = s.conns.map Conn.route)
    (hgrow : SendersGrow s.nodes s'.nodes) : RoutesOk s' := by
  refine ⟨fun c conn' hc' ↦ ?_, hroutes ▸ h.unique⟩
  have hmap := congrArg (·[c]?) hroutes
  simp only [List.getElem?_map, hc', Option.map_some'] at hmap
  obtain ⟨conn, hc, hroute⟩ := Option.map_eq_some'.1 hmap.symm
  obtain ⟨node, hk, hmem⟩ := h.registered c conn hc
  obtain ⟨node', hk', hsub⟩ := hgrow _ node hk
  simp only [Conn.route, Prod.mk.injEq] at hroute
  exact ⟨node', hroute.1 ▸ hk', hroute.2 ▸ hsub hmem⟩

/-- Replacing a connection by one with the same route keeps the routes. -/
theorem map_route_set {conns : List (Conn Addr)} {c : ℕ} {conn conn' : Conn Addr}
    (hc : conns[c]? = some conn) (hroute : conn'.route = conn.route) :
    (conns.set c conn').map Conn.route = conns.map Conn.route := by
  rw [List.map_set, hroute]
  exact set_of_getElem?_eq_some (by simp [hc])

theorem map_route_modify {conns : List (Conn Addr)} {f : Conn Addr → Conn Addr}
    (hf : ∀ conn, (f conn).route = conn.route) (c : ℕ) :
    (conns.modify f c).map Conn.route = conns.map Conn.route := by
  cases hc : conns[c]? with
  | none => rw [List.modify_eq_self (List.getElem?_eq_none_iff.1 hc)]
  | some conn => rw [modify_eq_set_of_getElem? hc, map_route_set hc (hf conn)]

variable [DecidableEq Addr]

theorem map_fst_subset_insertSender (sender : List (Addr × ℕ × Dir)) (peer : Addr)
    (entry : ℕ × Dir) : sender.map Prod.fst ⊆ (insertSender sender peer entry).map Prod.fst := by
  intro a ha
  by_cases h : a = peer
  · exact h ▸ List.mem_cons_self _ _
  · obtain ⟨p, hp, rfl⟩ := List.mem_map.1 ha
    exact List.mem_cons_of_mem _ (List.mem_map_of_mem _ (List.mem_filter.2 ⟨hp, by simpa using h⟩))

/-- What a turn of a reading task does: it replaces connection `c` by one with the same ends and
the same other direction, whose acceptor's `peer` changes only when the handshake is read up;
the endpoints keep their addresses, and their sender tables lose no address. -/
theorem StdNet.read_shape (h : s.read parse c d n = some s') :
    ∃ conn conn', s.conns[c]? = some conn ∧ s'.conns = s.conns.set c conn' ∧
      conn.Reshaped d conn' ∧ s'.nodes.map Node.addr = s.nodes.map Node.addr ∧
      SendersGrow s.nodes s'.nodes := by
  unfold StdNet.read at h
  cases hc : s.conns[c]? with
  | none => rw [hc] at h; exact nomatch h
  | some conn =>
    simp only [hc, Option.bind_eq_bind, Option.some_bind] at h
    split at h
    · cases h
    · cases h
      exact ⟨conn, _, rfl, rfl, conn.reshaped_setPipe _ _, rfl, SendersGrow.refl _⟩
    · split at h
      · -- the acceptor reads the handshake
        rename_i hpeer
        obtain rfl : d = .up := by
          cases d
          · rfl
          · exact nomatch hpeer
        simp only [Option.bind_eq_some, Option.pure_def, Option.some.injEq] at h
        obtain ⟨peer, -, node, hk, rfl⟩ := h
        exact ⟨conn, _, rfl, rfl,
          ⟨rfl, rfl, rfl, fun d' hd ↦ by cases d' <;> first | rfl | exact absurd rfl hd,
            fun h ↦ nomatch h⟩,
          map_addr_set hk rfl, SendersGrow.set hk (map_fst_subset_insertSender _ _ _)⟩
      · -- the recver task delivers a message
        simp only [Option.bind_eq_some, Option.pure_def, Option.some.injEq] at h
        obtain ⟨⟨tag, data⟩, -, node, hk, w, -, rfl⟩ := h
        exact ⟨conn, _, rfl, rfl, conn.reshaped_setPipe _ _, map_addr_set hk rfl,
          SendersGrow.set hk (List.Subset.refl _)⟩

theorem RoutesOk.read (h : RoutesOk s) (hr : s.read parse c d n = some s') : RoutesOk s' := by
  obtain ⟨conn, conn', hc, hconns, ⟨hcon, hdst, -⟩, -, hgrow⟩ := StdNet.read_shape hr
  exact h.of_routes (hconns ▸ map_route_set hc (by simp [Conn.route, hcon, hdst])) hgrow

/-- An endpoint whose sender table has no entry for an address has opened no connection to it. -/
theorem RoutesOk.route_not_mem (h : RoutesOk s) {i : ℕ} {node : Node Addr} {dst : Addr}
    (hk : s.nodes[i]? = some node) (hl : node.sender.lookup dst = none) :
    (i, dst) ∉ s.conns.map Conn.route := by
  intro hr
  obtain ⟨conn, hconn, hroute⟩ := List.mem_map.1 hr
  obtain ⟨c, hc⟩ := List.getElem?_of_mem hconn
  obtain ⟨node', hk', hmem⟩ := h.registered c conn hc
  simp only [Conn.route, Prod.mk.injEq] at hroute
  rw [hroute.1, hk, Option.some.injEq] at hk'
  subst hk'
  obtain ⟨p, hp, hpd⟩ := List.mem_map.1 hmem
  simpa [hroute.2, hpd] using List.lookup_eq_none_iff.1 hl p hp

/-- `get_or_connect` keeps `RoutesOk`: an entry it finds changes nothing, and it opens a connection
only when the endpoint's table has no entry for the address, so that none of the endpoint's
connections has that route yet. -/
theorem RoutesOk.getOrConnect (h : RoutesOk s) {i : ℕ} {dst : Addr} {s₁ : StdNet Addr}
    {p : ℕ × Dir} (hg : s.getOrConnect text i dst = some (s₁, p)) : RoutesOk s₁ := by
  unfold StdNet.getOrConnect at hg
  simp only [Option.bind_eq_bind, Option.bind_eq_some] at hg
  obtain ⟨node, hk, hg⟩ := hg
  split at hg
  · simp only [Option.pure_def, Option.some.injEq, Prod.mk.injEq] at hg
    exact hg.1 ▸ h
  · rename_i hl
    simp only [Option.bind_eq_some, Option.pure_def, Option.some.injEq, Prod.mk.injEq] at hg
    obtain ⟨j, -, rfl, -⟩ := hg
    have hgrow : SendersGrow s.nodes
        (s.nodes.set i { node with sender := (dst, s.conns.length, .up) :: node.sender }) :=
      SendersGrow.set hk (List.subset_cons_self _ _)
    refine ⟨fun c conn hc ↦ ?_, ?_⟩
    · rcases getElem?_append_singleton_eq_some hc with hc | ⟨rfl, rfl⟩
      · obtain ⟨node', hk', hmem⟩ := h.registered c conn hc
        obtain ⟨node'', hk'', hsub⟩ := hgrow _ node' hk'
        exact ⟨node'', hk'', hsub hmem⟩
      · exact ⟨_, List.getElem?_set_self (List.getElem?_eq_some_iff.1 hk).1, List.mem_cons_self _ _⟩
    · rw [List.map_append, List.nodup_append]
      exact ⟨h.unique, List.nodup_singleton _, List.disjoint_singleton.2 (h.route_not_mem hk hl)⟩

/-- A `send_to` call keeps `RoutesOk`. -/
theorem RoutesOk.sendTo (h : RoutesOk s) {i : ℕ} {dst : Addr} {tag : UInt64}
    {bufs : List (List UInt8)} (hs : s.sendTo text write i dst tag bufs = some s') : RoutesOk s' := by
  unfold StdNet.sendTo at hs
  simp only [Option.bind_eq_bind, Option.bind_eq_some, Option.pure_def, Option.some.injEq] at hs
  obtain ⟨⟨s₁, c, d⟩, hg, bytes, -, rfl⟩ := hs
  exact (h.getOrConnect hg).of_routes
    (map_route_modify (fun conn ↦ by simp [Conn.route, (conn.reshaped_setPipe _ _).connector,
      (conn.reshaped_setPipe _ _).dst]) c) (SendersGrow.refl _)

/-- Every step that does not panic keeps `RoutesOk`. -/
theorem RoutesOk.step (h : RoutesOk s) {e : StdEvent Addr}
    (hs : StdNet.step text parse write s e = some s') : RoutesOk s' := by
  cases e with
  | bind addr =>
    cases hs
    refine h.of_routes (by rw [StdNet.conns_bind]) ?_
    unfold StdNet.bind
    split_ifs
    exacts [SendersGrow.refl _, SendersGrow.append _ _]
  | sendTo i dst tag bufs => exact h.sendTo hs
  | read c d n => exact h.read hs
  | recv i tag | drop i rx =>
    simp only [StdNet.step, StdNet.mailbox, Option.bind_eq_bind, Option.bind_eq_some,
      Option.pure_def, Option.some.injEq] at hs
    obtain ⟨node, hk, w, -, rfl⟩ := hs
    exact h.of_routes rfl (SendersGrow.set hk (List.Subset.refl _))

/-- Along every run, no endpoint has opened two connections to one address: `get_or_connect`
connects only where the endpoint's sender table has no entry for the address, and the table keeps
an entry for every address the endpoint dialled. -/
theorem one_connection_per_destination (evs : List (StdEvent Addr)) {s : StdNet Addr}
    (hrun : StdNet.run text parse write evs = some s) : (s.conns.map Conn.route).Nodup :=
  (run_induction (StdNet.step text parse write) StdNet.empty (fun _ s ↦ RoutesOk s) routesOk_empty
    (fun _ _ _ _ h hs ↦ h.step hs) evs s hrun).unique

/-- Endpoints `0` and `1`; `0` sends to `1` twice and then `1` sends to `0`: `0`'s second send
goes over the connection of its first, and `1`, whose table has no entry for `0` while the
handshake is unread, opens a connection of its own. -/
theorem one_connection_per_destination_three_sends :
    ∃ s, StdNet.run (fun a : UInt8 ↦ [a]) List.head? (fun _ bufs ↦ remaining bufs)
        [.bind 0, .bind 1, .sendTo 0 1 5 [[1]], .sendTo 0 1 6 [[2]], .sendTo 1 0 7 [[3]]] = some s ∧
      s.conns.map Conn.route = [(0, 1), (1, 0)] ∧ (s.conns.map Conn.route).Nodup := by
  have hrun : StdNet.run (fun a : UInt8 ↦ [a]) List.head? (fun _ bufs ↦ remaining bufs)
      [.bind 0, .bind 1, .sendTo 0 1 5 [[1]], .sendTo 0 1 6 [[2]], .sendTo 1 0 7 [[3]]] = some _ :=
    rfl
  exact ⟨_, hrun, rfl, one_connection_per_destination _ hrun⟩

end Shape

/-! ### What an endpoint receives -/

theorem sublist_flatMap {α β : Type} {l : List α} {f g : α → List β}
    (h : ∀ x ∈ l, (f x).Sublist (g x)) : (l.flatMap f).Sublist (l.flatMap g) := by
  induction l with
  | nil => exact List.Sublist.slnil
  | cons x l ih =>
    simp only [List.flatMap_cons]
    exact (h x (List.mem_cons_self _ _)).append (ih fun y hy ↦ h y (List.mem_cons_of_mem _ hy))

/-- A direction registered under no address has had nothing written into it. -/
theorem ConnOk.sent_eq_nil {text : Addr → List UInt8} {addrs : List Addr} {conn : Conn Addr}
    (h : ConnOk text addrs conn) {d : Dir} (ht : conn.target d = none) : (conn.pipe d).sent = [] := by
  cases d with
  | up => exact nomatch ht
  | down => exact (h.unread ht).2

section Sends

variable [DecidableEq Addr] {text : Addr → List UInt8}

/-- The message a `send_to` call `(i, dst, tag, bufs)` makes arrive at the endpoint bound at `b`,
`addrs` being the endpoints' addresses: if `dst` is `b`, the message the recver task builds, with
the tag, the slices joined, and the caller's address. -/
def sendsTo (addrs : List Addr) (b : Addr) (call : ℕ × Addr × UInt64 × List (List UInt8)) :
    Option (Message Addr (List UInt8)) :=
  if call.2.1 = b then addrs[call.1]?.map fun a ↦ recvMsg a call.2.2 else none

namespace ConnOk

variable {addrs : List Addr} {conn : Conn Addr}

/-- What direction `d` carries for the endpoint `i`, bound at `b`: if `i` reads it, every message
written into it, from the writer's address, of which those it has delivered come first;
otherwise nothing. -/
theorem written_sendsTo (h : ConnOk text addrs conn) (hnd : addrs.Nodup) {i : ℕ} {b : Addr}
    (hb : addrs[i]? = some b) (d : Dir) :
    ∃ a, (conn.written d).filterMap (sendsTo addrs b) =
      if conn.reader d = i then
        conn.arrived d ++ ((conn.pipe d).sent.drop (conn.pipe d).delivered).map (recvMsg a)
      else [] := by
  obtain ⟨a, b', ha, hb', htarget, -, harr⟩ := h.direction d
  refine ⟨a, ?_⟩
  cases ht : conn.target d with
  | none => split_ifs <;> simp [Conn.written, ht, harr, h.sent_eq_nil ht]
  | some b'' =>
    obtain rfl := htarget b'' ht
    split_ifs with hi
    · subst hi
      obtain rfl : b'' = b := Option.some.inj (hb'.symm.trans hb)
      rw [harr, ← List.map_append, List.take_append_drop]
      have hf : (sendsTo addrs b'' ∘ fun m ↦ (conn.writer d, b'', m.1, m.2)) = some ∘ recvMsg a :=
        funext fun m ↦ by simp [sendsTo, ha]
      simp only [Conn.written, ht, List.filterMap_map, hf, List.filterMap_eq_map]
    · have hne : b'' ≠ b := fun hbb ↦ hi <|
        List.getElem?_inj (List.getElem?_eq_some_iff.1 hb').1 hnd (by rw [hb', hb, hbb])
      simp [Conn.written, ht, sendsTo, hne]

/-- What a connection has delivered to endpoint `i` is, in order, among the messages written into
it for `i`'s address. -/
theorem arrivedAt_sublist (h : ConnOk text addrs conn) (hnd : addrs.Nodup) {i : ℕ} {b : Addr}
    (hb : addrs[i]? = some b) :
    (conn.arrivedAt i).Sublist
      ((conn.written .up ++ conn.written .down).filterMap (sendsTo addrs b)) := by
  have hdir : ∀ d, (if conn.reader d = i then conn.arrived d else []).Sublist
      ((conn.written d).filterMap (sendsTo addrs b)) := fun d ↦ by
    obtain ⟨a, hw⟩ := h.written_sendsTo hnd hb d
    rw [hw]
    split_ifs
    exacts [List.sublist_append_left _ _, List.Sublist.refl _]
  rw [List.filterMap_append]
  exact (hdir .up).append (hdir .down)

/-- A connection that carries nothing more has delivered to endpoint `i` exactly the messages
written into it for `i`'s address. -/
theorem arrivedAt_of_pending (h : ConnOk text addrs conn) (hnd : addrs.Nodup) {i : ℕ} {b : Addr}
    (hb : addrs[i]? = some b) (hp : ∀ d, conn.pending text d = 0) :
    conn.arrivedAt i = (conn.written .up ++ conn.written .down).filterMap (sendsTo addrs b) := by
  have hdir : ∀ d, (conn.written d).filterMap (sendsTo addrs b) =
      if conn.reader d = i then conn.arrived d else [] := fun d ↦ by
    obtain ⟨a, hw⟩ := h.written_sendsTo hnd hb d
    have hall : (conn.pipe d).sent.length ≤ (conn.pipe d).delivered := by
      have := hp d
      unfold Conn.pending at this
      omega
    rw [hw, List.drop_eq_nil_of_le hall, List.map_nil, List.append_nil]
  rw [List.filterMap_append, hdir, hdir]
  rfl

end ConnOk

variable {s : StdNet Addr} {i : ℕ} {node : Node Addr}

/-- What the connections have delivered to an endpoint is among what was written into them for
its address. -/
theorem StdInv.inbox_sublist (hinv : StdInv text s) (hk : s.nodes[i]? = some node) :
    (s.inbox i).Sublist (s.written.filterMap (sendsTo (s.nodes.map Node.addr) node.addr)) := by
  rw [StdNet.inbox, StdNet.written, List.filterMap_flatMap]
  exact sublist_flatMap fun conn hc ↦
    (hinv.conns conn hc).arrivedAt_sublist hinv.addrs (by simp [hk])

/-- Once no connection carries anything more, what they have delivered to an endpoint is what was
written into them for its address. -/
theorem StdInv.inbox_of_pending (hinv : StdInv text s) (hk : s.nodes[i]? = some node)
    (hp : ∀ conn ∈ s.conns, ∀ d, conn.pending text d = 0) :
    s.inbox i = s.written.filterMap (sendsTo (s.nodes.map Node.addr) node.addr) := by
  rw [StdNet.inbox, StdNet.written, List.filterMap_flatMap]
  exact List.flatMap_congr fun conn hc ↦
    (hinv.conns conn hc).arrivedAt_of_pending hinv.addrs (by simp [hk]) (hp conn hc)

end Sends

/-! ### Draining every connection -/

/-- Direction `d` of connection `c` carries nothing more, or there is no connection `c`. -/
def Drained (text : Addr → List UInt8) (s : StdNet Addr) (t : ℕ × Dir) : Prop :=
  ∀ conn, s.conns[t.1]? = some conn → conn.pending text t.2 = 0

section Drain

variable {text : Addr → List UInt8} {parse : List UInt8 → Option Addr}
  {write : ℕ → List (List UInt8) → ℕ} {s s' : StdNet Addr} {c n : ℕ} {d : Dir}

/-- A reshaped connection carries as many frames as before in every direction but the one that
changed. -/
theorem Conn.Reshaped.pending {conn conn' : Conn Addr} (h : conn.Reshaped d conn') {d' : Dir}
    (hne : d' ≠ d) : conn'.pending text d' = conn.pending text d' := by
  unfold Conn.pending
  rw [h.pipe d' hne]
  cases d' with
  | up =>
    obtain rfl : d = .down := by cases d; exacts [absurd rfl hne, rfl]
    simp only [Conn.ahead, h.src, h.peer rfl]
  | down => rfl

variable [DecidableEq Addr]

/-- A read of one direction leaves every other direction that carries nothing more so. -/
theorem StdNet.read_drained (hr : s.read parse c d n = some s') {t : ℕ × Dir} (ht : t ≠ (c, d))
    (h : Drained text s t) : Drained text s' t := by
  obtain ⟨conn, conn', hc, hconns, hshape, -⟩ := StdNet.read_shape hr
  intro conn₁ hc₁
  rw [hconns] at hc₁
  by_cases htc : c = t.1
  · have hd : t.2 ≠ d := fun h ↦ ht (Prod.ext htc.symm h)
    rw [← htc, List.getElem?_set_self (List.getElem?_eq_some_iff.1 hc).1, Option.some.injEq] at hc₁
    subst hc₁
    rw [hshape.pending hd]
    exact h conn (htc ▸ hc)
  · rw [List.getElem?_set_ne htc] at hc₁
    exact h conn₁ hc₁

/-- `k` reads of one direction keep the invariant, write nothing, keep the connections, and leave
every other direction that carries nothing more so. -/
theorem StdInv.reads (hparse : ∀ a, parse (text a) = some a) :
    ∀ (k : ℕ) {s s' : StdNet Addr}, StdInv text s →
      (List.replicate k (StdEvent.read c d n)).foldlM (StdNet.step text parse write) s = some s' →
      StdInv text s' ∧ s'.written.Perm s.written ∧ s'.conns.length = s.conns.length ∧
        ∀ t, t ≠ (c, d) → Drained text s t → Drained text s' t
  | 0, s, s', hinv, h => by
    obtain rfl : s = s' := Option.some.inj h
    exact ⟨hinv, .refl _, rfl, fun _ _ ↦ id⟩
  | k + 1, s, s', hinv, h => by
    simp only [List.replicate_succ, List.foldlM_cons, Option.bind_eq_bind, Option.bind_eq_some] at h
    obtain ⟨s₁, h₁, h⟩ := h
    obtain ⟨conn, _, hc, hconns, -⟩ := StdNet.read_shape h₁
    obtain ⟨s₂, -, h₂, hinv₁, hw₁, -⟩ := hinv.read hparse hc d n
    obtain rfl : s₂ = s₁ := Option.some.inj (h₂.symm.trans h₁)
    obtain ⟨hinv', hw', hlen', hframe⟩ := StdInv.reads hparse k hinv₁ h
    exact ⟨hinv', hw'.trans hw₁, by rw [hlen', hconns, List.length_set],
      fun t ht hd ↦ hframe t ht (StdNet.read_drained h₁ ht hd)⟩

/-- Reading a direction until it carries nothing more. -/
theorem StdInv.drainOne (hparse : ∀ a, parse (text a) = some a) (hinv : StdInv text s)
    (c : ℕ) (d : Dir) :
    ∃ k n s', (List.replicate k (StdEvent.read c d n)).foldlM (StdNet.step text parse write) s =
      some s' ∧ Drained text s' (c, d) := by
  cases hc : s.conns[c]? with
  | none => exact ⟨0, 0, s, rfl, fun _ h ↦ nomatch hc.symm.trans h⟩
  | some conn =>
    obtain ⟨s', conn', h, -, hc', -, hzero⟩ :=
      StdInv.drain hparse (conn.pending text d + 1) hinv hc (le_refl (conn.pipe d).wire.length)
        (by split_ifs <;> omega)
    exact ⟨_, _, s', h, fun conn₁ hc₁ ↦ Option.some.inj (hc'.symm.trans hc₁) ▸ hzero⟩

/-- Reading the directions of `ts`, one after another, each until it carries nothing more: the
invariant holds, nothing is written, and none of them carries anything more. -/
theorem StdInv.drainAll (hparse : ∀ a, parse (text a) = some a) :
    ∀ (ts : List (ℕ × Dir)) {s : StdNet Addr}, StdInv text s →
      ∃ (rs : List (ℕ × Dir × ℕ)) (s' : StdNet Addr),
        (rs.map fun r ↦ StdEvent.read r.1 r.2.1 r.2.2).foldlM (StdNet.step text parse write) s =
          some s' ∧
        StdInv text s' ∧ s'.written.Perm s.written ∧ s'.conns.length = s.conns.length ∧
        ∀ t ∈ ts, Drained text s' t
  | [], s, hinv => ⟨[], s, rfl, hinv, .refl _, rfl, fun _ h ↦ nomatch h⟩
  | (c, d) :: ts, s, hinv => by
    obtain ⟨rs, s₁, h₁, hinv₁, hw₁, hlen₁, hts⟩ := StdInv.drainAll hparse ts hinv
    obtain ⟨k, n, s', h₂, hcd⟩ := hinv₁.drainOne hparse c d
    obtain ⟨hinv', hw₂, hlen₂, hframe⟩ := hinv₁.reads hparse k h₂
    refine ⟨rs ++ List.replicate k (c, d, n), s', ?_, hinv', hw₂.trans hw₁, hlen₂.trans hlen₁,
      fun t ht ↦ ?_⟩
    · rw [List.map_append, List.foldlM_append, h₁, List.map_replicate]
      exact h₂
    · by_cases htc : t = (c, d)
      · exact htc ▸ hcd
      · exact hframe t htc (hts t (List.mem_of_ne_of_mem htc ht))

end Drain

/-! ### End to end -/

section EndToEnd

variable [DecidableEq Addr] {text : Addr → List UInt8} {parse : List UInt8 → Option Addr}
  {write : ℕ → List (List UInt8) → ℕ}

/-- Assume the address text fits a frame and parses back to the address, and the writer's results
are allowed. Along every admissible run, what each endpoint's mailbox holds, parked or accepted
by a channel, is, as a multiset, among the messages the run's `send_to` calls addressed to the
endpoint, each with its tag, its slices joined and the caller's address: no message is forged,
altered, sent to another endpoint or received twice. -/
theorem std_mailboxes_hold_sends (htext : ∀ a, (text a).length ≤ maxFrameLength)
    (hparse : ∀ a, parse (text a) = some a)
    (hwrite : ∀ call bufs, WriteOk bufs (write call bufs))
    (evs : List (StdEvent Addr))
    (hadm : StepsMeet (StdNet.step text parse write) StdNet.empty Admissible evs) :
    ∃ s, StdNet.run text parse write evs = some s ∧
      ∀ (i : ℕ) (node : Node Addr), s.nodes[i]? = some node →
      (node.world.mailbox.msgs ++ accepted node.world.receivers).Subperm
        ((sendCalls evs).filterMap (sendsTo (s.nodes.map Node.addr) node.addr)) := by
  obtain ⟨s, hrun, hinv, hw⟩ := stdInv_run htext hparse hwrite evs hadm
  exact ⟨s, hrun, fun i node hk ↦ (hinv.nodes i node hk).inbox.subperm.trans
    ((hinv.inbox_sublist hk).subperm.trans (hw.filterMap _).subperm)⟩

/-- `std_mailboxes_hold_sends` on the run of `admissible_bind_bind_sendTo`. -/
theorem std_mailboxes_hold_sends_one_send :
    ∃ s, StdNet.run (fun a : UInt8 ↦ [a]) List.head? (fun _ bufs ↦ remaining bufs)
        [.bind 0, .bind 1, .sendTo 0 1 5 [[1], [2]]] = some s ∧
      ∀ (i : ℕ) (node : Node UInt8), s.nodes[i]? = some node →
        (node.world.mailbox.msgs ++ accepted node.world.receivers).Subperm
          ((sendCalls [.bind 0, .bind 1, .sendTo 0 1 5 [[1], [2]]]).filterMap
            (sendsTo (s.nodes.map Node.addr) node.addr)) := by
  refine std_mailboxes_hold_sends ?_ ?_ ?_ _ admissible_bind_bind_sendTo
  exacts [fun _ ↦ by simp [maxFrameLength], fun _ ↦ rfl, fun _ ↦ writeOk_remaining]

/-- Assume the address text fits a frame and parses back to the address, and the writer's results
are allowed. From the end of every admissible run, the recver tasks can go on reading until no
connection carries anything more; then each endpoint's mailbox holds, parked or accepted by a
channel, exactly the messages the run's `send_to` calls addressed to it, as a multiset: none is
lost. -/
theorem std_delivers_every_send (htext : ∀ a, (text a).length ≤ maxFrameLength)
    (hparse : ∀ a, parse (text a) = some a)
    (hwrite : ∀ call bufs, WriteOk bufs (write call bufs))
    (evs : List (StdEvent Addr))
    (hadm : StepsMeet (StdNet.step text parse write) StdNet.empty Admissible evs) :
    ∃ (reads : List (ℕ × Dir × ℕ)) (s : StdNet Addr),
      StdNet.run text parse write (evs ++ reads.map fun r ↦ StdEvent.read r.1 r.2.1 r.2.2) =
        some s ∧
      ∀ (i : ℕ) (node : Node Addr), s.nodes[i]? = some node →
        (node.world.mailbox.msgs ++ accepted node.world.receivers).Perm
          ((sendCalls evs).filterMap (sendsTo (s.nodes.map Node.addr) node.addr)) := by
  obtain ⟨s₀, hrun, hinv₀, hw₀⟩ := stdInv_run htext hparse hwrite evs hadm
  obtain ⟨rs, s, h, hinv, hw, hlen, hdrained⟩ := hinv₀.drainAll hparse
    ((List.range s₀.conns.length).flatMap fun c ↦ [(c, Dir.up), (c, Dir.down)])
  have hp : ∀ conn ∈ s.conns, ∀ d, conn.pending text d = 0 := fun conn hc d ↦ by
    obtain ⟨c, hc⟩ := List.getElem?_of_mem hc
    have hlt : c < s₀.conns.length := hlen ▸ (List.getElem?_eq_some_iff.1 hc).1
    exact hdrained (c, d) (List.mem_flatMap.2 ⟨c, List.mem_range.2 hlt, by cases d <;> simp⟩)
      conn hc
  refine ⟨rs, s, ?_, fun i node hk ↦ ?_⟩
  · rw [StdNet.run, List.foldlM_append]
    rw [StdNet.run] at hrun
    rw [hrun]
    exact h
  · exact ((hinv.nodes i node hk).inbox.trans (.of_eq (hinv.inbox_of_pending hk hp))).trans
      ((hw.trans hw₀).filterMap _)

/-- `std_delivers_every_send` on the run of `admissible_bind_bind_sendTo`. -/
theorem std_delivers_every_send_one_send :
    ∃ (reads : List (ℕ × Dir × ℕ)) (s : StdNet UInt8),
      StdNet.run (fun a : UInt8 ↦ [a]) List.head? (fun _ bufs ↦ remaining bufs)
          ([.bind 0, .bind 1, .sendTo 0 1 5 [[1], [2]]] ++
            reads.map fun r ↦ StdEvent.read r.1 r.2.1 r.2.2) = some s ∧
      ∀ (i : ℕ) (node : Node UInt8), s.nodes[i]? = some node →
        (node.world.mailbox.msgs ++ accepted node.world.receivers).Perm
          ((sendCalls [.bind 0, .bind 1, .sendTo 0 1 5 [[1], [2]]]).filterMap
            (sendsTo (s.nodes.map Node.addr) node.addr)) := by
  refine std_delivers_every_send ?_ ?_ ?_ _ admissible_bind_bind_sendTo
  exacts [fun _ ↦ by simp [maxFrameLength], fun _ ↦ rfl, fun _ ↦ writeOk_remaining]

end EndToEnd

end MadsimNet
