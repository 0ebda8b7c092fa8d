/-
# Relays

`relay_packet` sends a datagram on as it is, with the remote id of the stream
that it is relayed to. Whatever relays a datagram has passed, its peer reads
from it what was sent: all fields of the header but the id, the payload and
the SACK ranges.

Key definitions: `setRemoteId`, `forwardPacket`, `Carried`.
Key theorems: `parse_setRemoteId`, `Carried.reads`.
-/
import Udx.Receive

namespace Udx

open Serial

/-- `h[1] = udx__swap_uint32_if_be(relay->remote_id)`. -/
def setRemoteId (id : SeqNo) (d : List UInt8) : List UInt8 := d.take 4 ++ le32 id ++ d.drop 8

/-- What `relay_packet` sends on through the stream `relay`, if it is bound. -/
def forwardPacket (relay : Core) (d : List UInt8) : Option (Dest × List UInt8) :=
  relay.peer.socket.map fun _ => (relay.peer.dest, setRemoteId relay.peer.remoteId d)

section

variable (id : SeqNo) {d : List UInt8} {i : ℕ}

theorem setRemoteId_length (hd : 8 ≤ d.length) : (setRemoteId id d).length = d.length := by
  unfold setRemoteId
  simp only [List.length_append, List.length_take, List.length_drop, le32_length]
  omega

theorem setRemoteId_getD (hd : 8 ≤ d.length) (hi : i < 4 ∨ 8 ≤ i) :
    (setRemoteId id d).getD i 0 = d.getD i 0 := by
  have hlen : (d.take 4 ++ le32 id).length = 8 := by
    simp only [List.length_append, List.length_take, le32_length]
    omega
  unfold setRemoteId
  rw [List.getD_eq_getElem?_getD, List.getD_eq_getElem?_getD]
  congr 1
  rcases hi with hi | hi
  · rw [List.append_assoc, List.getElem?_append_left (by rw [List.length_take]; omega), List.getElem?_take, if_pos hi]
  · rw [List.getElem?_append_right (by omega), hlen, List.getElem?_drop, Nat.add_sub_cancel' hi]

theorem setRemoteId_le32At (hd : 8 ≤ d.length) (hi : 8 ≤ i) : le32At (setRemoteId id d) i = le32At d i := by
  unfold le32At
  rw [setRemoteId_getD id hd (.inr hi), setRemoteId_getD id hd (.inr (by omega)),
    setRemoteId_getD id hd (.inr (by omega)), setRemoteId_getD id hd (.inr (by omega))]

theorem setRemoteId_drop (hd : 8 ≤ d.length) (hi : 8 ≤ i) : (setRemoteId id d).drop i = d.drop i := by
  have hlen : (d.take 4 ++ le32 id).length = 8 := by
    simp only [List.length_append, List.length_take, le32_length]
    omega
  unfold setRemoteId
  rw [List.drop_append, List.drop_of_length_le (by omega), List.nil_append, hlen, List.drop_drop,
    Nat.add_sub_cancel' hi]

theorem setRemoteId_id (hd : 8 ≤ d.length) : le32At (setRemoteId id d) 4 = id := by
  have hlen : (d.take 4).length = 4 := by
    rw [List.length_take]
    omega
  have h := le32At_append (d.take 4) (le32 id ++ d.drop 8) 0
  rw [hlen, le32At_le32] at h
  unfold setRemoteId
  rw [List.append_assoc]
  exact h

/-- Only the id in the header changes. -/
theorem parse_setRemoteId (d : List UInt8) :
    parse (setRemoteId id d) = (parse d).map fun h => { h with remoteId := id } := by
  by_cases hd : d.length < UDX_HEADER_SIZE
  · have hshort : (setRemoteId id d).length < UDX_HEADER_SIZE := by
      unfold setRemoteId
      simp only [List.length_append, List.length_take, List.length_drop, le32_length, UDX_HEADER_SIZE] at hd ⊢
      omega
    unfold parse
    rw [if_pos hd, if_pos hshort]
    rfl
  · have h8 : 8 ≤ d.length := Nat.le_trans (by decide) (Nat.le_of_not_lt hd)
    unfold parse
    rw [setRemoteId_length id h8, setRemoteId_getD id h8 (.inl (by omega)), setRemoteId_getD id h8 (.inl (by omega)),
      setRemoteId_getD id h8 (.inl (by omega)), setRemoteId_getD id h8 (.inl (by omega)), setRemoteId_id id h8,
      setRemoteId_le32At id h8 (by omega), setRemoteId_le32At id h8 (by omega), setRemoteId_le32At id h8 (by omega)]
    split_ifs <;> rfl

theorem payload_setRemoteId (h : Header) (hd : UDX_HEADER_SIZE ≤ d.length) :
    payload { h with remoteId := id } (setRemoteId id d) = payload h d := by
  unfold payload
  rw [setRemoteId_drop id (Nat.le_trans (by decide) hd) (by decide)]

theorem nsackBlocks_setRemoteId (h : Header) (hd : UDX_HEADER_SIZE ≤ d.length) :
    nsackBlocks { h with remoteId := id } (setRemoteId id d) = nsackBlocks h d := by
  unfold nsackBlocks
  rw [setRemoteId_length id (Nat.le_trans (by decide) hd)]

theorem readSacks_setRemoteId (hd : UDX_HEADER_SIZE ≤ d.length) (n : ℕ) (hi : 8 ≤ i) :
    readSacks (setRemoteId id d) i n = readSacks d i n := by
  induction n generalizing i with
  | zero => rfl
  | succ n ih =>
    have h8 : 8 ≤ d.length := Nat.le_trans (by decide) hd
    rw [readSacks, readSacks, setRemoteId_le32At id h8 hi, setRemoteId_le32At id h8 (by omega), ih (by omega)]

end

theorem length_of_parse {d : List UInt8} {h : Header} (hd : parse d = some h) : UDX_HEADER_SIZE ≤ d.length := by
  unfold parse at hd
  split at hd
  · cases hd
  · next hlen => exact Nat.le_of_not_lt hlen

/-- A datagram that stream `a` has sent, on its way through relays. -/
inductive Carried (a : Stream) : List UInt8 → Prop
  | sent {kind dest d} : .wire kind dest d ∈ a.log → Carried a d
  | relayed {dest d d'} (relay : Core) : Carried a d → forwardPacket relay d = some (dest, d') → Carried a d'

section

variable {a b : Stream} {d : List UInt8}

theorem Carried.mono (hd : Carried a d) (h : ∀ e ∈ a.log, e ∈ b.log) : Carried b d := by
  induction hd with
  | sent hmem => exact .sent (h _ hmem)
  | relayed relay _ hf ih => exact .relayed relay ih hf

/-- The peer reads what was sent, whatever relays are in between. -/
theorem Carried.reads (hd : Carried a d) {h : Header} (hparse : parse d = some h) :
    ∃ kind dest d' h', .wire kind dest d' ∈ a.log ∧ parse d' = some h' ∧ h = { h' with remoteId := h.remoteId } ∧
      payload h d = payload h' d' ∧
      readSacks d UDX_HEADER_SIZE (nsackBlocks h d) = readSacks d' UDX_HEADER_SIZE (nsackBlocks h' d') := by
  induction hd generalizing h with
  | sent hmem => exact ⟨_, _, _, h, hmem, hparse, rfl, rfl, rfl⟩
  | relayed relay _ hf ih =>
    obtain ⟨_, -, hsome⟩ := Option.map_eq_some_iff.mp hf
    cases hsome
    rw [parse_setRemoteId] at hparse
    obtain ⟨g, hg, rfl⟩ := Option.map_eq_some_iff.mp hparse
    obtain ⟨kind, dest', d', h', hmem, hparse', heq, hpay, hsacks⟩ := ih hg
    have hlen := length_of_parse hg
    refine ⟨kind, dest', d', h', hmem, hparse', ?_, ?_, ?_⟩
    · rw [heq]
    · rw [payload_setRemoteId _ _ hlen, hpay]
    · rw [nsackBlocks_setRemoteId _ _ hlen, readSacks_setRemoteId _ hlen _ (by decide), hsacks]

end

end Udx
