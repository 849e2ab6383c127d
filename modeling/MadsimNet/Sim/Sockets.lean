import Mathlib.Data.List.Nodup
import MadsimNet.Rendezvous

/-!
# The socket shim of msim: placeholder descriptors and the socket registry

msim intercepts libc's `socket` and `close` for the simulated nodes, which share one process.
`socket` checks the domain, takes a descriptor with `libc::dup(0)` so that no descriptor the
program opens by other means can collide with it, and registers a `SocketState` holding that
descriptor in `FileDes`, its `_placeholder_file`, under `(node, fd)` in
`HostNetworkState.sockets` (`add_socket`, which asserts that the key was free:
`"duplicate socket"`). `close` removes the calling node's entry for the descriptor
(`close_socket`), and dropping the state runs `FileDes::drop`, which closes the placeholder with
the real `close` and asserts that it returned `0`; a descriptor the node has no socket under goes
to the real `close`.

`Host` is the process as the shim sees it: the descriptors open in its table (`fds`) and the
registry (`sockets`, as a list of key and state). `hostClose` is the real `close`, `dup` the
answer of `dup(0)`, which the run supplies. `Host.socket` and `Host.close` are the interceptors,
with the message of the assertion that fails where they panic, and `Host.run` a sequence of calls
at any nodes (`ShimCall`).

`ShimInv` is what the registry should keep: every entry's descriptor is non-negative, open and
held by its own placeholder, and no two entries share one. `ShimOk` is when a call keeps it: the
domain is IP, `dup(0)` succeeded with a descriptor that was not open, and a socket's descriptor
is closed only at the node that registered it. `ShimInv.step` is one call and `shim_run_safe` a
whole run. `socket_registers_failed_dup` is what happens without the two conditions: `socket`
does not check `dup`'s result, and registers `-1` when it fails; and a socket closed at another
node stays registered while the real `close` frees its descriptor for the next `dup`.

Scope. The `bind` interceptor, and so the state's `endpoint`, are not modelled, nor the other
interceptors, which only read the registry. `AF_INET` and `AF_INET6` have their Linux values, and
the warning for a non-zero protocol is left out, as it changes nothing.
-/

set_option autoImplicit false
set_option relaxedAutoImplicit false

namespace MadsimNet

/-- `libc::AF_INET`. -/
def afInet : ℤ := 2

/-- `libc::AF_INET6` on Linux. -/
def afInet6 : ℤ := 10

/-- The message of a failed `assert_eq!`. -/
def assertEqFailed : String := "assertion `left == right` failed"

/-- The real `close`, `bypass_close` or the interceptor's `NEXT_DL_SYM`: an open descriptor is
freed and `0` returned; any other gives `-1`. -/
def hostClose (fds : List ℤ) (fd : ℤ) : List ℤ × ℤ :=
  if fd ∈ fds then (fds.erase fd, 0) else (fds, -1)

/-- `FileDes::drop`: `assert_eq!(bypass_close(self.0), 0)`. -/
def FileDes.drop (fds : List ℤ) (fd : ℤ) : Except String (List ℤ) :=
  if (hostClose fds fd).2 = 0 then .ok (hostClose fds fd).1 else .error assertEqFailed

/-- `libc::dup(0)` where it returned `fd`: `-1`, or a descriptor that is open from then on. -/
def dup (fds : List ℤ) (fd : ℤ) : List ℤ := if fd = -1 then fds else fd :: fds

/-- The real `close` leaves the table without the descriptor, whether it was open or not. -/
@[simp]
theorem hostClose_fst (fds : List ℤ) (fd : ℤ) : (hostClose fds fd).1 = fds.erase fd := by
  unfold hostClose
  split
  · rfl
  · exact (List.erase_of_not_mem ‹_›).symm

theorem FileDes.drop_of_mem {fds : List ℤ} {fd : ℤ} (h : fd ∈ fds) :
    FileDes.drop fds fd = .ok (fds.erase fd) := by
  simp [FileDes.drop, hostClose, h]

theorem FileDes.drop_of_not_mem {fds : List ℤ} {fd : ℤ} (h : fd ∉ fds) :
    FileDes.drop fds fd = .error assertEqFailed := by
  simp [FileDes.drop, hostClose, h]

/-- `SocketState` without the `endpoint` that only `bind` sets: the socket type and the
descriptor its `_placeholder_file` holds. -/
structure SocketState where
  ty : ℤ
  placeholderFile : ℤ
  deriving DecidableEq, Repr

/-- The process: its open descriptors, and `HostNetworkState.sockets` by node and descriptor. -/
structure Host (NodeId : Type) where
  fds : List ℤ
  sockets : List ((NodeId × ℤ) × SocketState)
  deriving DecidableEq, Repr

/-- A call of an interceptor by a simulated node. -/
inductive ShimCall (NodeId : Type) where
  /-- `socket(domain, ty, _)` at `node`, whose `dup(0)` returned `fd`. -/
  | socket (node : NodeId) (domain ty fd : ℤ)
  /-- `close(fd)` at `node`. -/
  | close (node : NodeId) (fd : ℤ)
  deriving DecidableEq, Repr

namespace Host

variable {NodeId : Type} [DecidableEq NodeId]

/-- No socket yet, with `fds` open. -/
def init (fds : List ℤ) : Host NodeId := ⟨fds, []⟩

/-- `HostNetworkState::add_socket(fd, socket)` at `node`. `insert` must find no entry for
`(node, fd)`; where it finds one, the state it replaces is dropped, closing that placeholder,
before the assertion fails. -/
def addSocket (h : Host NodeId) (node : NodeId) (fd : ℤ) (socket : SocketState) :
    Except String (Host NodeId) :=
  match h.sockets.lookup (node, fd) with
  | none => .ok { h with sockets := ((node, fd), socket) :: h.sockets }
  | some old => FileDes.drop h.fds old.placeholderFile >>= fun _ ↦ .error "duplicate socket"

/-- `HostNetworkState::close_socket(fd)` at `node`: the entry for `(node, fd)`, if any, is removed
and its state dropped, closing the placeholder; says whether there was one. -/
def closeSocket (h : Host NodeId) (node : NodeId) (fd : ℤ) : Except String (Host NodeId × Bool) :=
  match h.sockets.lookup (node, fd) with
  | none => .ok (h, false)
  | some old => (FileDes.drop h.fds old.placeholderFile).map
      fun fds ↦ (⟨fds, h.sockets.filter (·.1 != (node, fd))⟩, true)

/-- The `socket` interceptor at `node`, where `dup(0)` returned `fd`: the domain must be IPv4 or
IPv6, and `fd`, unchecked, is registered as the placeholder and returned. -/
def socket (h : Host NodeId) (node : NodeId) (domain ty fd : ℤ) :
    Except String (Host NodeId × ℤ) :=
  if domain = afInet ∨ domain = afInet6 then
    (addSocket ⟨dup h.fds fd, h.sockets⟩ node fd ⟨ty, fd⟩).map (·, fd)
  else .error "only ip4 sockets are currently supported"

/-- The `close` interceptor at `node`: a socket of the node is closed by the shim, returning `0`;
any other descriptor goes to the real `close`. -/
def close (h : Host NodeId) (node : NodeId) (fd : ℤ) : Except String (Host NodeId × ℤ) :=
  (closeSocket h node fd).map fun r ↦
    if r.2 then (r.1, 0) else (⟨(hostClose r.1.fds fd).1, r.1.sockets⟩, (hostClose r.1.fds fd).2)

/-- One call: the new state and what the interceptor returned, or the failed assertion. -/
def call (h : Host NodeId) : ShimCall NodeId → Except String (Host NodeId × ℤ)
  | .socket node domain ty fd => h.socket node domain ty fd
  | .close node fd => h.close node fd

/-- One call as a step of a run, `none` where it panics. -/
def step (h : Host NodeId) (e : ShimCall NodeId) : Option (Host NodeId) :=
  (h.call e).toOption.map Prod.fst

/-- The calls `evs` in turn, from no socket and `fds` open. -/
def run (fds : List ℤ) (evs : List (ShimCall NodeId)) : Option (Host NodeId) :=
  evs.foldlM step (init fds)

end Host

/-! ### The registry's invariant -/

section Inv

variable {NodeId : Type}

/-- Every registered socket's descriptor is non-negative, open and held by its own placeholder,
and no two sockets share a descriptor; the open descriptors are a set. -/
structure ShimInv (h : Host NodeId) : Prop where
  fds : h.fds.Nodup
  shared : (h.sockets.map (·.1.2)).Nodup
  entry : ∀ key st, (key, st) ∈ h.sockets → 0 ≤ key.2 ∧ key.2 ∈ h.fds ∧ st.placeholderFile = key.2

theorem shimInv_init {fds : List ℤ} (h : fds.Nodup) : ShimInv (Host.init fds : Host NodeId) :=
  ⟨h, List.nodup_nil, fun _ _ h ↦ absurd h (List.not_mem_nil _)⟩

/-- A call as the hypotheses of the shim allow it: `socket` with an IP domain, whose `dup(0)`
succeeded with a descriptor that was not open; `close` of a socket's descriptor only at the node
that registered it. -/
def ShimOk (h : Host NodeId) : ShimCall NodeId → Prop
  | .socket _ domain _ fd => (domain = afInet ∨ domain = afInet6) ∧ 0 ≤ fd ∧ fd ∉ h.fds
  | .close node fd => ∀ key ∈ h.sockets.map (·.1), key.2 = fd → key.1 = node

/-- Two entries with one descriptor are one entry. -/
theorem ShimInv.eq_of_fd {h : Host NodeId} (hinv : ShimInv h)
    {a b : (NodeId × ℤ) × SocketState} (ha : a ∈ h.sockets) (hb : b ∈ h.sockets)
    (hfd : a.1.2 = b.1.2) : a = b :=
  List.inj_on_of_nodup_map hinv.shared ha hb hfd

variable [DecidableEq NodeId]

/-- A descriptor that is not open has no entry. -/
theorem ShimInv.lookup_of_not_mem {h : Host NodeId} (hinv : ShimInv h) {fd : ℤ} (hfd : fd ∉ h.fds)
    (node : NodeId) : h.sockets.lookup (node, fd) = none := by
  rw [List.lookup_eq_none_iff]
  intro p hp
  have := (hinv.entry p.1 p.2 hp).2.1
  simp only [bne_iff_ne, ne_eq]
  intro heq
  rw [← heq] at this
  exact hfd this

/-- `socket` as the shim allows it registers the new descriptor and returns it. -/
theorem ShimInv.socket {h : Host NodeId} (hinv : ShimInv h) {node : NodeId} {domain ty fd : ℤ}
    (hok : ShimOk h (.socket node domain ty fd)) :
    h.socket node domain ty fd = .ok (⟨fd :: h.fds, ((node, fd), ⟨ty, fd⟩) :: h.sockets⟩, fd) ∧
      ShimInv (⟨fd :: h.fds, ((node, fd), ⟨ty, fd⟩) :: h.sockets⟩ : Host NodeId) := by
  obtain ⟨hdomain, hpos, hfresh⟩ := hok
  have hdup : dup h.fds fd = fd :: h.fds := if_neg (by omega)
  refine ⟨?_, List.nodup_cons.2 ⟨hfresh, hinv.fds⟩, ?_, ?_⟩
  · simp [Host.socket, hdomain, hdup, Host.addSocket, hinv.lookup_of_not_mem hfresh, Except.map]
  · refine List.nodup_cons.2 ⟨fun hmem ↦ hfresh ?_, hinv.shared⟩
    obtain ⟨⟨key, st⟩, hkey, rfl⟩ := List.mem_map.1 hmem
    exact (hinv.entry key st hkey).2.1
  · simp only [List.mem_cons, Prod.mk.injEq]
    rintro key st (⟨rfl, rfl⟩ | hkey)
    · exact ⟨hpos, Or.inl rfl, rfl⟩
    · obtain ⟨h0, hmem, hst⟩ := hinv.entry key st hkey
      exact ⟨h0, Or.inr hmem, hst⟩

/-- `close` of a socket at its own node closes its placeholder, removes its entry and returns
`0`. -/
theorem ShimInv.close_socket {h : Host NodeId} (hinv : ShimInv h) {node : NodeId} {fd : ℤ}
    {st : SocketState} (hst : h.sockets.lookup (node, fd) = some st) :
    h.close node fd = .ok (⟨h.fds.erase fd, h.sockets.filter (·.1 != (node, fd))⟩, 0) ∧
      ShimInv (⟨h.fds.erase fd, h.sockets.filter (·.1 != (node, fd))⟩ : Host NodeId) := by
  have hmem := mem_of_lookup_eq_some hst
  obtain ⟨-, hopen, hplace⟩ := hinv.entry _ _ hmem
  refine ⟨?_, hinv.fds.erase fd, hinv.shared.sublist ((List.filter_sublist h.sockets).map _), ?_⟩
  · simp [Host.close, Host.closeSocket, hst, hplace, FileDes.drop_of_mem hopen, Except.map]
  · intro key st' hkey
    rw [List.mem_filter] at hkey
    obtain ⟨h0, hin, hst'⟩ := hinv.entry key st' hkey.1
    refine ⟨h0, (hinv.fds.mem_erase_iff).2 ⟨fun hfd ↦ ?_, hin⟩, hst'⟩
    have := hinv.eq_of_fd hkey.1 hmem hfd
    simp_all

/-- `close` of a descriptor that no socket of any other node holds, at a node with no socket
under it, goes to the real `close`. -/
theorem ShimInv.close_other {h : Host NodeId} (hinv : ShimInv h) {node : NodeId} {fd : ℤ}
    (hok : ShimOk h (.close node fd)) (hnone : h.sockets.lookup (node, fd) = none) :
    h.close node fd = .ok (⟨(hostClose h.fds fd).1, h.sockets⟩, (hostClose h.fds fd).2) ∧
      ShimInv (⟨(hostClose h.fds fd).1, h.sockets⟩ : Host NodeId) := by
  have hfree : ∀ key st, (key, st) ∈ h.sockets → key.2 ≠ fd := by
    intro key st hkey hfd
    have hnode := hok key (List.mem_map_of_mem _ hkey) hfd
    rw [List.lookup_eq_none_iff] at hnone
    exact absurd (Prod.ext hnode hfd).symm (by simpa using hnone _ hkey)
  refine ⟨by simp [Host.close, Host.closeSocket, hnone, Except.map], ?_, hinv.shared,
    fun key st hkey ↦ ?_⟩
  · simpa using hinv.fds.erase fd
  · obtain ⟨h0, hin, hst⟩ := hinv.entry key st hkey
    exact ⟨h0, by simpa using (List.mem_erase_of_ne (hfree key st hkey)).2 hin, hst⟩

/-- One call as the shim allows it does not panic and keeps the invariant. -/
theorem ShimInv.step {h : Host NodeId} (hinv : ShimInv h) {e : ShimCall NodeId}
    (hok : ShimOk h e) : ∃ h', h.step e = some h' ∧ ShimInv h' := by
  cases e with
  | socket node domain ty fd =>
    obtain ⟨hcall, hinv'⟩ := hinv.socket hok
    exact ⟨_, by simp [Host.step, Host.call, hcall, Except.toOption], hinv'⟩
  | close node fd =>
    cases hst : h.sockets.lookup (node, fd) with
    | some st =>
      obtain ⟨hcall, hinv'⟩ := hinv.close_socket hst
      exact ⟨_, by simp [Host.step, Host.call, hcall, Except.toOption], hinv'⟩
    | none =>
      obtain ⟨hcall, hinv'⟩ := hinv.close_other hok hst
      exact ⟨_, by simp [Host.step, Host.call, hcall, Except.toOption], hinv'⟩

/-- Along every run from a set of open descriptors whose calls are allowed where they are made, no
call panics, neither `"duplicate socket"` nor `FileDes::drop`'s assertion, and every registered
socket's descriptor is non-negative, open and held by its own placeholder, no two sockets sharing
one. -/
theorem shim_run_safe (fds : List ℤ) (hfds : fds.Nodup) (evs : List (ShimCall NodeId))
    (hok : StepsMeet Host.step (Host.init fds) ShimOk evs) :
    ∃ h, Host.run fds evs = some h ∧ ShimInv h :=
  run_total_of_stepsMeet (fun _ h ↦ ShimInv h) (shimInv_init hfds)
    (fun _ _ _ hinv he ↦ hinv.step he) evs hok

/-- With descriptor `0` open, node `0` opens a socket, on descriptor `3`, and closes it. -/
theorem shim_run_safe_open_close :
    ∃ h, Host.run [0] ([.socket 0 afInet 1 3, .close 0 3] : List (ShimCall ℕ)) = some h ∧
      ShimInv h := by
  refine shim_run_safe [0] (by decide) _ ?_
  refine (StepsMeet.nil.snoc ?_).snoc ?_ <;> rintro _ ⟨⟩ <;> unfold ShimOk <;> decide

end Inv

/-! ### Without the hypotheses -/

/-- With descriptor `0` open: a `socket` at node `0` whose `dup(0)` fails registers `(0, -1)` and
returns `-1`; after it, a second such call at the node, and `close(-1)` at the node, panic in
`FileDes::drop`, as `-1` is not open. And a socket of node `0` on descriptor `3`, closed at node
`1`, goes to the real `close`: the descriptor is freed and stays registered. A socket of node `1`
then gets `3` from `dup(0)`, so that two entries share it; closing node `0`'s closes it, and
closing node `1`'s then panics in `FileDes::drop`. -/
theorem socket_registers_failed_dup :
    (Host.init [0] : Host ℕ).socket 0 afInet 1 (-1) = .ok (⟨[0], [((0, -1), ⟨1, -1⟩)]⟩, -1) ∧
      (⟨[0], [((0, -1), ⟨1, -1⟩)]⟩ : Host ℕ).socket 0 afInet 1 (-1) = .error assertEqFailed ∧
      (⟨[0], [((0, -1), ⟨1, -1⟩)]⟩ : Host ℕ).close 0 (-1) = .error assertEqFailed ∧
      (Host.init [0] : Host ℕ).socket 0 afInet 1 3 = .ok (⟨[3, 0], [((0, 3), ⟨1, 3⟩)]⟩, 3) ∧
      (⟨[3, 0], [((0, 3), ⟨1, 3⟩)]⟩ : Host ℕ).close 1 3 = .ok (⟨[0], [((0, 3), ⟨1, 3⟩)]⟩, 0) ∧
      (⟨[0], [((0, 3), ⟨1, 3⟩)]⟩ : Host ℕ).socket 1 afInet 1 3 =
        .ok (⟨[3, 0], [((1, 3), ⟨1, 3⟩), ((0, 3), ⟨1, 3⟩)]⟩, 3) ∧
      (⟨[3, 0], [((1, 3), ⟨1, 3⟩), ((0, 3), ⟨1, 3⟩)]⟩ : Host ℕ).close 0 3 =
        .ok (⟨[0], [((1, 3), ⟨1, 3⟩)]⟩, 0) ∧
      (⟨[0], [((1, 3), ⟨1, 3⟩)]⟩ : Host ℕ).close 1 3 = .error assertEqFailed :=
  ⟨rfl, rfl, rfl, rfl, rfl, rfl, rfl, rfl⟩

end MadsimNet
