import FreeFlow.Found.ByteMem

/-!
# Words in the byte order of a host

A host stores its words with the least significant byte first or with the most significant byte
first. Two hosts that read each other's memory must agree on the order; the one that writes swaps
the bytes of its words when the other's order is not its own.

* `toHost32`, `toHost64` — the bytes of a word as a host stores it; `ofHost32`, `ofHost64` — the
  word a host reads from bytes.
* `bswap32`, `bswap64` — a word with its bytes in the other order.
* `toHost32_bswap32`, `toHost64_bswap64` — **a swapped word lies in memory as the word itself does
  on a host of the other order**.

Nothing here names a program.
-/

namespace FreeFlow.Found

namespace Mem

/-- The bytes of a number in the order of a host: `net` says that the most significant byte is
first. Kind: D -/
def hostOrder (net : Bool) (bs : List UInt8) : List UInt8 := if net then bs.reverse else bs

/-- A host reads back what it has stored. Kind: L -/
@[simp] lemma hostOrder_hostOrder (net : Bool) (bs : List UInt8) :
    hostOrder net (hostOrder net bs) = bs := by
  cases net <;> simp [hostOrder]

/-- The order does not change the number of bytes. Kind: L -/
@[simp] lemma length_hostOrder (net : Bool) (bs : List UInt8) :
    (hostOrder net bs).length = bs.length := by
  cases net <;> simp [hostOrder]

/-- The other order. Kind: L -/
lemma hostOrder_reverse (net : Bool) (bs : List UInt8) :
    hostOrder net bs.reverse = hostOrder (!net) bs := by
  cases net <;> simp [hostOrder]

/-- A 32-bit word as a host stores it. Kind: D -/
def toHost32 (net : Bool) (v : UInt32) : List UInt8 := hostOrder net (toLE 4 v.toNat)

/-- A 64-bit word as a host stores it. Kind: D -/
def toHost64 (net : Bool) (v : UInt64) : List UInt8 := hostOrder net (toLE 8 v.toNat)

/-- The 32-bit word a host reads. Kind: D -/
def ofHost32 (net : Bool) (bs : List UInt8) : UInt32 := UInt32.ofNat (ofLE (hostOrder net bs))

/-- The 64-bit word a host reads. Kind: D -/
def ofHost64 (net : Bool) (bs : List UInt8) : UInt64 := UInt64.ofNat (ofLE (hostOrder net bs))

/-- A 32-bit word takes four bytes. Kind: L -/
@[simp] lemma length_toHost32 (net : Bool) (v : UInt32) : (toHost32 net v).length = 4 := by
  simp [toHost32]

/-- A 64-bit word takes eight bytes. Kind: L -/
@[simp] lemma length_toHost64 (net : Bool) (v : UInt64) : (toHost64 net v).length = 8 := by
  simp [toHost64]

/-- The bytes of a 32-bit word denote it. Kind: L -/
lemma ofLE_toLE_uint32 (v : UInt32) : UInt32.ofNat (ofLE (toLE 4 v.toNat)) = v := by
  have hv : v.toNat < 256 ^ 4 := lt_of_lt_of_eq v.toNat_lt (by norm_num)
  rw [ofLE_toLE _ _ hv, UInt32.ofNat_toNat]

/-- The bytes of a 64-bit word denote it. Kind: L -/
lemma ofLE_toLE_uint64 (v : UInt64) : UInt64.ofNat (ofLE (toLE 8 v.toNat)) = v := by
  have hv : v.toNat < 256 ^ 8 := lt_of_lt_of_eq v.toNat_lt (by norm_num)
  rw [ofLE_toLE _ _ hv, UInt64.ofNat_toNat]

/-- A host reads the 32-bit word it has stored. Kind: L -/
@[simp] lemma ofHost32_toHost32 (net : Bool) (v : UInt32) : ofHost32 net (toHost32 net v) = v := by
  rw [ofHost32, toHost32, hostOrder_hostOrder, ofLE_toLE_uint32]

/-- A host reads the 64-bit word it has stored. Kind: L -/
@[simp] lemma ofHost64_toHost64 (net : Bool) (v : UInt64) : ofHost64 net (toHost64 net v) = v := by
  rw [ofHost64, toHost64, hostOrder_hostOrder, ofLE_toLE_uint64]

/-- `bswap_32`. Kind: D -/
def bswap32 (v : UInt32) : UInt32 := UInt32.ofNat (ofLE (toLE 4 v.toNat).reverse)

/-- `bswap_64`. Kind: D -/
def bswap64 (v : UInt64) : UInt64 := UInt64.ofNat (ofLE (toLE 8 v.toNat).reverse)

/-- The bytes of the word that a list of four bytes denotes. Kind: L -/
lemma toLE_ofNat_ofLE32 {bs : List UInt8} (h : bs.length = 4) :
    toLE 4 (UInt32.ofNat (ofLE bs)).toNat = bs := by
  have hlt : ofLE bs < 2 ^ 32 := lt_of_lt_of_eq (ofLE_lt bs) (by rw [h]; norm_num)
  rw [UInt32.toNat_ofNat', Nat.mod_eq_of_lt hlt, ← h, toLE_ofLE]

/-- The bytes of the word that a list of eight bytes denotes. Kind: L -/
lemma toLE_ofNat_ofLE64 {bs : List UInt8} (h : bs.length = 8) :
    toLE 8 (UInt64.ofNat (ofLE bs)).toNat = bs := by
  have hlt : ofLE bs < 2 ^ 64 := lt_of_lt_of_eq (ofLE_lt bs) (by rw [h]; norm_num)
  rw [UInt64.toNat_ofNat', Nat.mod_eq_of_lt hlt, ← h, toLE_ofLE]

/-- **A swapped word for the other order**, 32 bits. Kind: L -/
lemma toHost32_bswap32 (net : Bool) (v : UInt32) :
    toHost32 net (bswap32 v) = toHost32 (!net) v := by
  rw [toHost32, bswap32, toLE_ofNat_ofLE32 (by simp), hostOrder_reverse, toHost32]

/-- **A swapped word for the other order**, 64 bits. Kind: L -/
lemma toHost64_bswap64 (net : Bool) (v : UInt64) :
    toHost64 net (bswap64 v) = toHost64 (!net) v := by
  rw [toHost64, bswap64, toLE_ofNat_ofLE64 (by simp), hostOrder_reverse, toHost64]

end Mem

end FreeFlow.Found
