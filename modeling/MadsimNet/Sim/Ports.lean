import Mathlib.Data.List.Nodup
import Mathlib.Data.List.Range
import Mathlib.Logic.Function.Basic

/-!
# Ephemeral ports of the msim network

msim's `NetSim` keeps `next_port_map`, from each node to the last port number handed out to it.
`NetSim::next_local_port(node)` gives `1` to a node with no entry and otherwise its entry plus
one, with `u32::wrapping_add`; `Endpoint::allocate_local_port` is that call at the endpoint's
node. Port `0` is left for new connections (`poll_accept_internal`).

`nextLocalPort` is the call on `PortMap`, the map as a function that is `none` where a node has
no entry, and `nextLocalPorts` is a sequence of calls for any nodes in any order, with the port
each call returned. `nextLocalPort_spec` is one call. `portsFor_nextLocalPorts` gives, by
induction on the calls, what one node receives: its `k`-th port is its entry plus `k`, modulo
`2 ^ 32`, whatever the calls for other nodes. `ports_are_counted` is this from an empty map: the
`k`-th port of a node is `k mod 2 ^ 32`, so that while a node has had fewer than `2 ^ 32` calls
its ports are distinct and none is `0`. `port_wraps_to_zero` lists the first `2 ^ 32 + 1`
ports of a node: the `2 ^ 32`-th is `0`, the port left for new connections, and the next one is
`1` again, although the docstring of `allocate_local_port` says that ports are never reused.

Scope. The mutex around the map only orders the calls, and a run is that order.
-/

set_option autoImplicit false
set_option relaxedAutoImplicit false

namespace MadsimNet

/-- `NetSim::next_port_map`: the last port handed out to each node, `none` for a node with no
entry. -/
abbrev PortMap (NodeId : Type) := NodeId → Option UInt32

variable {NodeId : Type} [DecidableEq NodeId]

/-- `NetSim::next_local_port(node)`: the new map and the port returned. An occupied entry becomes
`cur.wrapping_add(1)`, which is returned; a vacant one becomes `1`. -/
def nextLocalPort (ports : PortMap NodeId) (node : NodeId) : PortMap NodeId × UInt32 :=
  match ports node with
  | some cur => (Function.update ports node (some (cur + 1)), cur + 1)
  | none => (Function.update ports node (some 1), 1)

/-- `next_local_port` called for each node of `calls` in turn, from the map `ports`: each call's
node and the port it returned. -/
def nextLocalPorts (ports : PortMap NodeId) : List NodeId → List (NodeId × UInt32)
  | [] => []
  | node :: calls =>
    let next := nextLocalPort ports node
    (node, next.2) :: nextLocalPorts next.1 calls

/-- The ports returned to `node`, in order. -/
def portsFor (node : NodeId) (rs : List (NodeId × UInt32)) : List UInt32 :=
  rs.filterMap fun r ↦ if r.1 = node then some r.2 else none

@[simp]
theorem portsFor_cons (node : NodeId) (r : NodeId × UInt32) (rs : List (NodeId × UInt32)) :
    portsFor node (r :: rs) = if r.1 = node then r.2 :: portsFor node rs else portsFor node rs := by
  unfold portsFor
  split <;> simp_all

/-- One call: the port returned, and the node's new entry, are its old entry plus one, a vacant
entry counting as `0`; the other entries are unchanged. -/
theorem nextLocalPort_spec (ports : PortMap NodeId) (node : NodeId) :
    (nextLocalPort ports node).2 = (ports node).getD 0 + 1 ∧
      (nextLocalPort ports node).1 =
        Function.update ports node (some ((ports node).getD 0 + 1)) := by
  unfold nextLocalPort
  split <;> simp_all

/-- The ports one node receives over any calls: the `k`-th is its entry before the calls plus
`k + 1`, modulo `2 ^ 32`, whatever the calls for other nodes. -/
theorem portsFor_nextLocalPorts (node : NodeId) :
    ∀ (ports : PortMap NodeId) (calls : List NodeId),
      (portsFor node (nextLocalPorts ports calls)).map UInt32.toNat =
        (List.range (calls.count node)).map
          fun k ↦ (((ports node).getD 0).toNat + k + 1) % UInt32.size
  | _, [] => rfl
  | ports, c :: calls => by
    obtain ⟨hport, hports⟩ := nextLocalPort_spec ports c
    have ih := portsFor_nextLocalPorts node (nextLocalPort ports c).1 calls
    rw [hports] at ih
    by_cases hc : c = node
    · subst hc
      have hsucc : ((ports c).getD 0 + 1).toNat = (((ports c).getD 0).toNat + 1) % UInt32.size := by
        simp [UInt32.toNat, UInt32.add_def]
      rw [Function.update_same, Option.getD_some, hsucc] at ih
      simp only [nextLocalPorts, hport, hports, portsFor_cons, if_pos, List.map_cons, ih,
        List.count_cons_self, List.range_succ_eq_map, List.map_map, hsucc]
      refine List.cons_eq_cons.mpr ⟨rfl, List.map_congr_left fun k _ ↦ ?_⟩
      simp only [Function.comp_apply, UInt32.size]
      omega
    · simp only [nextLocalPorts, hports, portsFor_cons, hc, if_false, ih, List.count_cons_of_ne (Ne.symm hc),
        Function.update_noteq (Ne.symm hc)]

/-- Over any calls for any nodes from an empty map, the `k`-th port a node receives is
`k mod 2 ^ 32`, so that what a node receives depends only on how many calls it had; while it has
had fewer than `2 ^ 32` of them, its ports are distinct and none is `0`. -/
theorem ports_are_counted (calls : List NodeId) (node : NodeId) :
    (portsFor node (nextLocalPorts (fun _ ↦ none) calls)).map UInt32.toNat =
        (List.range (calls.count node)).map (fun k ↦ (k + 1) % UInt32.size) ∧
      (calls.count node < UInt32.size →
        (portsFor node (nextLocalPorts (fun _ ↦ none) calls)).Nodup ∧
          0 ∉ portsFor node (nextLocalPorts (fun _ ↦ none) calls)) := by
  have hports : (portsFor node (nextLocalPorts (fun _ ↦ none) calls)).map UInt32.toNat =
      (List.range (calls.count node)).map (fun k ↦ (k + 1) % UInt32.size) := by
    simpa using portsFor_nextLocalPorts node (fun _ ↦ none) calls
  refine ⟨hports, fun hcount ↦ ?_⟩
  have hbelow : ∀ k ∈ List.range (calls.count node), (k + 1) % UInt32.size = k + 1 :=
    fun k hk ↦ Nat.mod_eq_of_lt (by rw [List.mem_range] at hk; omega)
  rw [List.map_congr_left hbelow] at hports
  refine ⟨List.Nodup.of_map UInt32.toNat ?_, fun hzero ↦ ?_⟩
  · rw [hports]
    exact List.Nodup.map (fun _ _ ↦ Nat.succ.inj) (List.nodup_range _)
  · have hmem : UInt32.toNat 0 ∈ (portsFor node (nextLocalPorts (fun _ ↦ none) calls)).map
        UInt32.toNat := List.mem_map_of_mem _ hzero
    rw [hports] at hmem
    simp at hmem

/-- Two nodes' calls interleaved: node `0`, with two calls, receives ports `1` and `2`. -/
theorem ports_are_counted_interleaved :
    ([0, 1, 0] : List ℕ).count 0 < UInt32.size ∧
      ((portsFor 0 (nextLocalPorts (fun _ ↦ none) [0, 1, 0])).map UInt32.toNat =
          (List.range (([0, 1, 0] : List ℕ).count 0)).map (fun k ↦ (k + 1) % UInt32.size) ∧
        (([0, 1, 0] : List ℕ).count 0 < UInt32.size →
          (portsFor 0 (nextLocalPorts (fun _ ↦ none) [0, 1, 0])).Nodup ∧
            0 ∉ portsFor 0 (nextLocalPorts (fun _ ↦ none) [0, 1, 0]))) :=
  ⟨by decide, ports_are_counted [0, 1, 0] 0⟩

/-- The `2 ^ 32 + 1` calls of one node: the first, the `2 ^ 32 - 2` before the counter wraps, and
the last two. -/
theorem range_split_at_wrap : List.range (UInt32.size + 1) =
    List.range' 0 1 ++ List.range' 1 (UInt32.size - 2) ++ List.range' (UInt32.size - 1) 2 := by
  have h₁ := List.range'_append 0 1 (UInt32.size - 2) 1
  have h₂ := List.range'_append 0 (UInt32.size - 1) 2 1
  simp only [UInt32.size, Nat.reduceAdd, Nat.reduceSub, Nat.reduceMul] at h₁ h₂ ⊢
  rw [List.range_eq_range', h₁, h₂]

/-- `2 ^ 32 + 1` calls for one node return `1, 2, …, 2 ^ 32 - 1`, then `0`, the port left for new
connections, and then `1` again, as the first call did. -/
theorem port_wraps_to_zero :
    portsFor 0 (nextLocalPorts (fun _ ↦ none) (List.replicate (UInt32.size + 1) 0)) =
      1 :: (List.range' 2 (UInt32.size - 2)).map UInt32.ofNat ++ [0, 1] := by
  have hports := portsFor_nextLocalPorts (0 : ℕ) (fun _ ↦ none) (List.replicate (UInt32.size + 1) 0)
  simp only [List.count_replicate_self, Option.getD_none] at hports
  apply List.map_injective_iff.2 fun _ _ ↦ UInt32.toNat.inj
  rw [hports, range_split_at_wrap]
  simp only [List.map_append, List.map_cons, List.map_nil, List.map_map, List.range'_one,
    List.range'_succ, List.range'_zero, List.cons_append, List.nil_append, List.singleton_append]
  rw [List.range'_eq_map_range, List.range'_eq_map_range, List.map_map, List.map_map]
  refine List.cons_eq_cons.2 ⟨rfl, congrArg₂ (· ++ ·) (List.map_congr_left fun k _ ↦ ?_) rfl⟩
  show (0 + (1 + k) + 1) % UInt32.size = (2 + k) % UInt32.size
  congr 1
  omega

end MadsimNet
