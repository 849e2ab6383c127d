import Mathlib.Data.Rat.Defs
import MadsimNet.Sim.Endpoint

/-!
# The sim-mode network: address table, clogging, delivery timers

network.rs `Network` keeps a table from addresses to endpoints, each an `Arc<Mutex<Endpoint>>`,
a set of clogged addresses and the counter `stat.msg_count`. `Network::send` checks the source,
the destination and the random loss draw, and then schedules a timer whose closure holds a clone
of the destination's `Arc` and the message; when the timer fires it calls `Endpoint::send` on that
endpoint, whether or not the address is still in the table.

`Network` states this with the endpoints in allocation order (`heap`, each a `Site`: the address
whose `insert` allocated it and its mailbox with its channels), the table as a list of address
and endpoint number, the `Config` that `update_config` sets, and the timers not yet fired as
endpoint number and message. Two ghost fields
serve the proofs and are read by no operation: `clock` counts the calls so far and `log` records
every `send` that scheduled a delivery (`SendRecord`). An event (`NetEvent`) is a call of the
API, a receiver drop, or the firing of one of the timers, in any order: the latency draw decides
only when a timer fires, so it is left to the order of events, and the outcome of the loss draw
is an argument of `send`. The two draws still panic where rand does: `should_fault` on a loss rate
outside `[0, 1]` and `gen_range` on an empty latency range (`Config.ValidLossRate`,
`Config.NonemptyLatency`); `Network.send_eq_none_iff` lists where `send` panics. `Network.step`
applies one event, `none` where the code panics, and `Network.run` a list of them from
`Network::new`.

`timer_delivers_after_remove` is a run on which this matters: a channel that `recv(0, 1)` opened
before `remove(0)` receives a message whose timer fires after the remove, because the timer
holds the endpoint's `Arc` and `remove` only drops the table's.

Scope. The loss rate, an `f64`, is a rational, and a latency bound, a `Duration`, a number of
nanoseconds. The outcome of the loss draw may be either whatever the rate, where rand's
`gen_bool` gives `false` at rate `0` and `true` at rate `1`. The endpoint of a removed address
stays in `heap`; Rust frees it once no timer or table entry holds its `Arc`, and nothing can reach
it then.
-/

set_option autoImplicit false
set_option relaxedAutoImplicit false

namespace MadsimNet

variable {Addr Data : Type}

/-- An endpoint, named by its place in allocation order. -/
abbrev EpId := ℕ

/-- An allocated `Endpoint`: the address whose `insert` allocated it, and its mailbox with the
channels its `recv` calls opened. -/
structure Site (Addr Data : Type) where
  addr : Addr
  world : World Addr Data
  deriving DecidableEq, Repr

/-- A `send` call that scheduled a delivery: the number of the call in the run, its arguments,
and the endpoint its timer holds. -/
structure SendRecord (Addr Data : Type) where
  call : ℕ
  src : Addr
  dst : Addr
  tag : UInt64
  data : Data
  ep : EpId
  deriving DecidableEq, Repr

/-- The message a scheduled delivery carries. -/
def SendRecord.message (r : SendRecord Addr Data) : Message Addr Data := ⟨r.tag, r.data, r.src⟩

/-- network.rs `Config`: `packet_loss_rate` as a rational, and `send_latency`, a
`Range<Duration>`, as its start and end in nanoseconds. -/
structure Config where
  packetLossRate : ℚ
  sendLatency : ℕ × ℕ
  deriving DecidableEq, Repr

/-- `Config::default()`: no loss, and a latency from 1 ms up to 10 ms. -/
def Config.default : Config := ⟨0, (1000000, 10000000)⟩

/-- `should_fault(packet_loss_rate)` does not panic: rand's `gen_bool` takes a probability in
`[0, 1]`. -/
def Config.ValidLossRate (config : Config) : Prop :=
  0 ≤ config.packetLossRate ∧ config.packetLossRate ≤ 1

/-- `gen_range(send_latency)` does not panic: rand samples only from a nonempty range. -/
def Config.NonemptyLatency (config : Config) : Prop := config.sendLatency.1 < config.sendLatency.2

instance (config : Config) : Decidable config.ValidLossRate :=
  inferInstanceAs (Decidable (_ ∧ _))

instance (config : Config) : Decidable config.NonemptyLatency :=
  inferInstanceAs (Decidable (_ < _))

/-- Neither draw panics under the default configuration. -/
theorem Config.default_valid : Config.default.ValidLossRate ∧ Config.default.NonemptyLatency := by
  decide

/-- network.rs `Network`: the table `endpoints`, the set `clogged`, `config`, `stat.msg_count`,
every endpoint allocated so far, and the delivery timers not yet fired, each with the endpoint its
closure holds and its message; `clock` and `log` are ghost. -/
structure Network (Addr Data : Type) where
  endpoints : List (Addr × EpId)
  clogged : List Addr
  config : Config
  msgCount : UInt64
  heap : List (Site Addr Data)
  timers : List (EpId × Message Addr Data)
  clock : ℕ
  log : List (SendRecord Addr Data)
  deriving DecidableEq, Repr

/-- What happens to the network: a call of its API (`update_config` with the configuration its
closure leaves, `send` with the outcome of the loss draw), the drop of a receiver, named by its
endpoint and channel, or the firing of one of the pending timers. -/
inductive NetEvent (Addr Data : Type) where
  | insert (target : Addr)
  | remove (target : Addr)
  | clog (target : Addr)
  | unclog (target : Addr)
  | updateConfig (config : Config)
  | send (src dst : Addr) (tag : UInt64) (data : Data) (loss : Bool)
  | recv (dst : Addr) (tag : UInt64)
  | drop (ep : EpId) (rx : RecvId)
  | fire (timer : ℕ)
  deriving DecidableEq, Repr

variable [DecidableEq Addr]

namespace Network

/-- `Network::new`. -/
def new : Network Addr Data := ⟨[], [], Config.default, 0, [], [], 0, []⟩

/-- `self.endpoints.get(&target)`. -/
def lookup (net : Network Addr Data) (target : Addr) : Option EpId := net.endpoints.lookup target

/-- `Network::insert(target)`: allocate an endpoint for an address not yet in the table. -/
def insert (net : Network Addr Data) (target : Addr) : Network Addr Data :=
  if (net.lookup target).isSome then net
  else { net with
    endpoints := net.endpoints ++ [(target, net.heap.length)]
    heap := net.heap ++ [⟨target, World.empty⟩] }

/-- `Network::remove(target)`: the address leaves the table and the clogged set. -/
def remove (net : Network Addr Data) (target : Addr) : Network Addr Data :=
  { net with
    endpoints := net.endpoints.filter (·.1 != target)
    clogged := net.clogged.filter (· != target) }

/-- `Network::clog(target)`; panics unless the address is in the table. -/
def clog (net : Network Addr Data) (target : Addr) : Option (Network Addr Data) := do
  guard (net.lookup target).isSome
  pure { net with
    clogged := if target ∈ net.clogged then net.clogged else net.clogged ++ [target] }

/-- `Network::unclog(target)`; panics unless the address is in the table. -/
def unclog (net : Network Addr Data) (target : Addr) : Option (Network Addr Data) := do
  guard (net.lookup target).isSome
  pure { net with clogged := net.clogged.filter (· != target) }

/-- `Network::send(src, dst, tag, data)`, `loss` being the outcome of `should_fault`: panics
unless `src` is in the table; does nothing if `dst` is not or if either address is clogged; then
draws the loss, which panics on a loss rate outside `[0, 1]`, and does nothing if the draw loses
the message; then draws the latency, which panics on an empty range, and schedules a timer
holding the endpoint of `dst` and the message, and counts it. -/
def send (net : Network Addr Data) (src dst : Addr) (tag : UInt64) (data : Data) (loss : Bool) :
    Option (Network Addr Data) := do
  guard (net.lookup src).isSome
  match net.lookup dst with
  | none => pure net
  | some ep =>
    if src ∈ net.clogged ∨ dst ∈ net.clogged then pure net
    else do
      guard net.config.ValidLossRate
      if loss then pure net
      else do
        guard net.config.NonemptyLatency
        pure { net with
          timers := net.timers ++ [(ep, ⟨tag, data, src⟩)]
          msgCount := net.msgCount + 1
          log := net.log ++ [⟨net.clock, src, dst, tag, data, ep⟩] }

/-- A `send` from an address in the table to one in the table, neither clogged, whose loss draw
keeps the message under a configuration that makes neither draw panic, schedules its delivery. -/
theorem send_schedules {net : Network Addr Data} {src dst : Addr} {ep : EpId} (tag : UInt64)
    (data : Data) (hsrc : (net.lookup src).isSome) (hdst : net.lookup dst = some ep)
    (hs : src ∉ net.clogged) (hd : dst ∉ net.clogged)
    (hconfig : net.config.ValidLossRate ∧ net.config.NonemptyLatency) :
    net.send src dst tag data false = some { net with
      timers := net.timers ++ [(ep, ⟨tag, data, src⟩)]
      msgCount := net.msgCount + 1
      log := net.log ++ [⟨net.clock, src, dst, tag, data, ep⟩] } := by
  simp [send, hsrc, hdst, hs, hd, hconfig, guard]

/-- Where `Network::send` panics: at its `assert!`, on a source not in the table, and, for a
message to an address in the table with neither address clogged, in `should_fault` on a loss
rate outside `[0, 1]` or, for a message the draw keeps, in `gen_range` on an empty latency
range. -/
def SendPanics (net : Network Addr Data) (src dst : Addr) (loss : Bool) : Prop :=
  net.lookup src = none ∨
    ((net.lookup dst).isSome ∧ src ∉ net.clogged ∧ dst ∉ net.clogged ∧
      (¬ net.config.ValidLossRate ∨ loss = false ∧ ¬ net.config.NonemptyLatency))

theorem send_eq_none_iff (net : Network Addr Data) (src dst : Addr) (tag : UInt64) (data : Data)
    (loss : Bool) : net.send src dst tag data loss = none ↔ net.SendPanics src dst loss := by
  unfold send SendPanics
  cases hs : net.lookup src with
  | none => simp [guard, failure]
  | some _ =>
    cases hd : net.lookup dst with
    | none => simp [guard]
    | some ep =>
      by_cases hc : src ∈ net.clogged ∨ dst ∈ net.clogged
      · rcases hc with hc | hc <;> simp [guard, hc]
      · push_neg at hc
        by_cases hr : net.config.ValidLossRate <;> cases loss <;> simp [guard, failure, hr, hc]

/-- `Network::recv(dst, tag)`: `Endpoint::recv` on the endpoint of `dst`, which panics if there is
none. Returns the receiver, as its endpoint and its channel there. -/
def recv (net : Network Addr Data) (dst : Addr) (tag : UInt64) :
    Option (Network Addr Data × EpId × RecvId) := do
  let ep ← net.lookup dst
  let site ← net.heap[ep]?
  let (world, rx) ← Endpoint.recv tag site.world
  pure ({ net with heap := net.heap.set ep { site with world } }, ep, rx)

/-- What the receiver half of channel `rx` of endpoint `ep` holds. -/
def channel (net : Network Addr Data) (ep : EpId) (rx : RecvId) : Option (Receiver Addr Data) :=
  net.heap[ep]?.bind (·.world.receivers[rx]?)

/-- The receiver half of channel `rx` of endpoint `ep` is dropped. -/
def dropReceiver (net : Network Addr Data) (ep : EpId) (rx : RecvId) : Network Addr Data :=
  { net with heap := net.heap.modify (fun site ↦ { site with world := site.world.drop rx }) ep }

/-- The pending timer `timer` fires: its closure locks the endpoint it holds and calls
`Endpoint::send`, whatever the table says now. -/
def fire (net : Network Addr Data) (timer : ℕ) : Option (Network Addr Data) :=
  match net.timers[timer]? with
  | none => some net
  | some (ep, msg) => do
    let site ← net.heap[ep]?
    let world ← Endpoint.send msg site.world
    pure { net with
      timers := net.timers.eraseIdx timer
      heap := net.heap.set ep { site with world } }

/-- One event, before the ghost clock ticks; `none` where the code panics. -/
def apply (net : Network Addr Data) : NetEvent Addr Data → Option (Network Addr Data)
  | .insert target => some (net.insert target)
  | .remove target => some (net.remove target)
  | .clog target => net.clog target
  | .unclog target => net.unclog target
  | .updateConfig config => some { net with config }
  | .send src dst tag data loss => net.send src dst tag data loss
  | .recv dst tag => (net.recv dst tag).map Prod.fst
  | .drop ep rx => some (net.dropReceiver ep rx)
  | .fire timer => net.fire timer

/-- One event. -/
def step (net : Network Addr Data) (e : NetEvent Addr Data) : Option (Network Addr Data) :=
  (net.apply e).map fun net ↦ { net with clock := net.clock + 1 }

/-- The events of a run applied in order from `Network::new`. -/
def run (evs : List (NetEvent Addr Data)) : Option (Network Addr Data) :=
  evs.foldlM step new

theorem run_append_singleton (evs : List (NetEvent Addr Data)) (e : NetEvent Addr Data) :
    run (evs ++ [e]) = (run evs).bind (step · e) :=
  foldlM_append_singleton _ _ evs e

/-- The run `insert(0)`, `insert(1)`, `recv(0, 1)`, `send(1, 0, 1, 7)`, `remove(0)`: the `recv`
returns channel 0 of endpoint 0, and after the `remove` address 0 is out of the table and that
channel still empty; when the timer of the send fires next, the channel receives the message. -/
theorem timer_delivers_after_remove :
    ((run ([.insert 0, .insert 1] : List (NetEvent ℕ ℕ))).bind (·.recv 0 1)).map (·.2) =
      some (0, 0) ∧
    (run ([.insert 0, .insert 1, .recv 0 1, .send 1 0 1 7 false, .remove 0] :
      List (NetEvent ℕ ℕ))).map (fun net ↦ (net.lookup 0, net.channel 0 0)) =
      some (none, some ⟨1, none, false⟩) ∧
    (run ([.insert 0, .insert 1, .recv 0 1, .send 1 0 1 7 false, .remove 0, .fire 0] :
      List (NetEvent ℕ ℕ))).map (·.channel 0 0) = some (some ⟨1, some ⟨1, 7, 1⟩, false⟩) :=
  ⟨rfl, rfl, rfl⟩

end Network

end MadsimNet
