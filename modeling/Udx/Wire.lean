/-
# The datagram format

A datagram is a 20-byte header (magic byte, version, type, data offset, then
remote id, receive window, seq and ack as 32-bit little-endian words), an
extension area of `dataOffset` bytes (SACK ranges or probe padding) and the
payload. `Header.encode` is what `udx_write_header` lays out, `parse` what
`process_packet` reads back, and `parse_encode` says that they agree.

Key definitions: `Header`, `Header.encode`, `parse`, `payload`, `readSacks`.
Key theorems: `parse_encode`, `payload_encode`, `readSacks_encode`.
-/
import Udx.Serial

namespace Udx

open Serial

def UDX_HEADER_SIZE : ℕ := 20
def UDX_IPV4_HEADER_SIZE : ℕ := 20 + 8 + UDX_HEADER_SIZE
def UDX_IPV6_HEADER_SIZE : ℕ := 40 + 8 + UDX_HEADER_SIZE
def UDX_MAGIC_BYTE : UInt8 := 255
def UDX_VERSION : UInt8 := 1
def UDX_MAX_SACKS : ℕ := 50

def UDX_HEADER_DATA : UInt8 := 0b000001
def UDX_HEADER_END : UInt8 := 0b000010
def UDX_HEADER_SACK : UInt8 := 0b000100
def UDX_HEADER_MESSAGE : UInt8 := 0b001000
def UDX_HEADER_DESTROY : UInt8 := 0b010000
def UDX_HEADER_HEARTBEAT : UInt8 := 0b100000
def UDX_HEADER_DATA_OR_END : UInt8 := UDX_HEADER_DATA ||| UDX_HEADER_END

/-- `type & flag`, as a truth value. -/
def hasFlag (type flag : UInt8) : Bool := type &&& flag != 0

/-- The fields of a header, `header[2]` on. -/
structure Header where
  type : UInt8 := 0
  dataOffset : UInt8 := 0
  remoteId : SeqNo := 0
  rwnd : SeqNo := 0
  seq : SeqNo := 0
  ack : SeqNo := 0
  deriving DecidableEq, Repr, Inhabited

/-- A 32-bit word, little-endian. -/
def le32 (x : SeqNo) : List UInt8 :=
  [UInt8.ofNat x.toNat, UInt8.ofNat (x.toNat / 2 ^ 8), UInt8.ofNat (x.toNat / 2 ^ 16),
    UInt8.ofNat (x.toNat / 2 ^ 24)]

/-- The word at byte `i` of `b`. -/
def le32At (b : List UInt8) (i : ℕ) : SeqNo :=
  BitVec.ofNat 32 ((b.getD i 0).toNat + 2 ^ 8 * (b.getD (i + 1) 0).toNat +
    2 ^ 16 * (b.getD (i + 2) 0).toNat + 2 ^ 24 * (b.getD (i + 3) 0).toNat)

/-- The 20 bytes of a header. -/
def Header.encode (h : Header) : List UInt8 :=
  [UDX_MAGIC_BYTE, UDX_VERSION, h.type, h.dataOffset] ++ le32 h.remoteId ++ le32 h.rwnd ++
    le32 h.seq ++ le32 h.ack

/-- The header of a datagram: none if it is too short or not of this protocol. -/
def parse (d : List UInt8) : Option Header :=
  if d.length < UDX_HEADER_SIZE then none
  else if d.getD 0 0 ≠ UDX_MAGIC_BYTE ∨ d.getD 1 0 ≠ UDX_VERSION then none
  else some
    { type := d.getD 2 0
      dataOffset := d.getD 3 0
      remoteId := le32At d 4
      rwnd := le32At d 8
      seq := le32At d 12
      ack := le32At d 16 }

/-- What follows the header and the extension area; none if the offset points
past the end. -/
def payload (h : Header) (d : List UInt8) : Option (List UInt8) :=
  let b := d.drop UDX_HEADER_SIZE
  if h.dataOffset.toNat > b.length then none else some (b.drop h.dataOffset.toNat)

/-- The number of SACK ranges of a datagram. -/
def nsackBlocks (h : Header) (d : List UInt8) : ℕ :=
  if hasFlag h.type UDX_HEADER_SACK then
    let payloadLen := d.length - UDX_HEADER_SIZE
    let headerLen :=
      if h.dataOffset.toNat > 0 ∧ h.dataOffset.toNat < payloadLen then h.dataOffset.toNat
      else payloadLen
    headerLen / 8
  else 0

/-- The first `n` SACK ranges from byte `i` on. -/
def readSacks (d : List UInt8) : ℕ → ℕ → List (SeqNo × SeqNo)
  | _, 0 => []
  | i, n + 1 => (le32At d i, le32At d (i + 4)) :: readSacks d (i + 8) n

def writeSacks : List (SeqNo × SeqNo) → List UInt8
  | [] => []
  | (a, b) :: l => le32 a ++ le32 b ++ writeSacks l

/-! ### Reading what was written -/

theorem le32_length (x : SeqNo) : (le32 x).length = 4 := rfl

theorem le32At_le32 (x : SeqNo) (l : List UInt8) : le32At (le32 x ++ l) 0 = x := by
  have hx := x.isLt
  simp only [le32At, le32, List.cons_append, List.nil_append, List.getD_cons_zero, Nat.zero_add,
    List.getD_cons_succ, UInt8.toNat_ofNat', Nat.reducePow]
  apply BitVec.eq_of_toNat_eq
  simp only [BitVec.toNat_ofNat, Nat.reducePow]
  omega

theorem le32At_append (p l : List UInt8) (i : ℕ) : le32At (p ++ l) (p.length + i) = le32At l i := by
  have e (j : ℕ) : (p ++ l).getD (p.length + j) 0 = l.getD j 0 := by
    simp [List.getD_eq_getElem?_getD, List.getElem?_append_right]
  simp only [le32At, Nat.add_assoc, e]

@[simp] theorem encode_length (h : Header) : h.encode.length = UDX_HEADER_SIZE := rfl

/-- What `process_packet` reads is what `udx_write_header` wrote. -/
theorem parse_encode (h : Header) (l : List UInt8) : parse (h.encode ++ l) = some h := by
  have hlen : ¬ (h.encode ++ l).length < UDX_HEADER_SIZE := by simp
  have h4 : le32At (h.encode ++ l) 4 = h.remoteId := by
    rw [Header.encode]; simp only [List.append_assoc]
    rw [show (4 : ℕ) = [UDX_MAGIC_BYTE, UDX_VERSION, h.type, h.dataOffset].length + 0 from rfl,
      le32At_append, le32At_le32]
  have h8 : le32At (h.encode ++ l) 8 = h.rwnd := by
    rw [Header.encode]; simp only [List.append_assoc]
    rw [← List.append_assoc, show (8 : ℕ) = ([UDX_MAGIC_BYTE, UDX_VERSION, h.type, h.dataOffset] ++
      le32 h.remoteId).length + 0 from rfl, le32At_append, le32At_le32]
  have h12 : le32At (h.encode ++ l) 12 = h.seq := by
    rw [Header.encode]; simp only [List.append_assoc]
    rw [← List.append_assoc, ← List.append_assoc, show (12 : ℕ) = ([UDX_MAGIC_BYTE, UDX_VERSION,
      h.type, h.dataOffset] ++ le32 h.remoteId ++ le32 h.rwnd).length + 0 from rfl, le32At_append,
      le32At_le32]
  have h16 : le32At (h.encode ++ l) 16 = h.ack := by
    rw [Header.encode, List.append_assoc, show (16 : ℕ) = ([UDX_MAGIC_BYTE, UDX_VERSION, h.type,
      h.dataOffset] ++ le32 h.remoteId ++ le32 h.rwnd ++ le32 h.seq).length + 0 from rfl,
      le32At_append, le32At_le32]
  simp only [parse, hlen, h4, h8, h12, h16, if_false]
  simp [Header.encode]

/-- The payload starts after the header and `dataOffset` bytes. -/
theorem payload_encode (h : Header) (pad l : List UInt8) (hp : pad.length = h.dataOffset.toNat) :
    payload h (h.encode ++ (pad ++ l)) = some l := by
  have e : (h.encode ++ (pad ++ l)).drop UDX_HEADER_SIZE = pad ++ l := by
    rw [← encode_length h, List.drop_left]
  unfold payload
  simp only [e, List.length_append, ← hp]
  rw [if_neg (by omega), List.drop_left]

theorem writeSacks_length (l : List (SeqNo × SeqNo)) : (writeSacks l).length = 8 * l.length := by
  induction l with
  | nil => rfl
  | cons x l ih => simp only [writeSacks, List.length_append, le32_length, List.length_cons, ih]; omega

theorem readSacks_append (p l : List UInt8) (i n : ℕ) :
    readSacks (p ++ l) (p.length + i) n = readSacks l i n := by
  induction n generalizing i with
  | zero => rfl
  | succ n ih => simp only [readSacks, le32At_append, Nat.add_assoc, ih]

theorem readSacks_writeSacks (x : List (SeqNo × SeqNo)) :
    readSacks (writeSacks x) 0 x.length = x := by
  induction x with
  | nil => rfl
  | cons x l ih =>
    obtain ⟨a, b⟩ := x
    simp only [writeSacks, List.length_cons, readSacks, List.append_assoc, Nat.zero_add]
    have e := readSacks_append (le32 a ++ le32 b) (writeSacks l) 0 l.length
    simp only [List.append_assoc, List.length_append, le32_length, Nat.add_zero] at e
    have e4 := le32At_append (le32 a) (le32 b ++ writeSacks l) 0
    simp only [le32_length, Nat.add_zero] at e4
    rw [le32At_le32, e4, le32At_le32, e, ih]

/-- The ranges of an acknowledgement are read back as they were written. -/
theorem readSacks_encode (h : Header) (x : List (SeqNo × SeqNo))
    (ht : hasFlag h.type UDX_HEADER_SACK = true) (ho : h.dataOffset = 0) :
    readSacks (h.encode ++ writeSacks x) UDX_HEADER_SIZE
      (nsackBlocks h (h.encode ++ writeSacks x)) = x := by
  have hn : nsackBlocks h (h.encode ++ writeSacks x) = x.length := by
    simp only [nsackBlocks, ht, ho, List.length_append, encode_length, writeSacks_length]
    simp
  rw [hn]
  have e := readSacks_append h.encode (writeSacks x) 0 x.length
  rw [encode_length, Nat.add_zero] at e
  rw [e, readSacks_writeSacks]

end Udx
