import Mathlib

/-!
# Numbers in texts

Programs put numbers into names and addresses as decimal text with separators between them. What
such a text denotes is unambiguous when no number contains the separator, and its length is bounded
by the range of the numbers.

* `not_mem_toString_nat`, `not_mem_toString_int` — a decimal contains digits and at most a minus.
* `size_toString_nat_le`, `size_toString_int_le` — and no more of them than its range needs.
* `append_cons_inj` — a text is cut in one way only at the first of its separators.
* `InAddr`, `ntop`, `pton` — IPv4 addresses, their dotted form, and how it is read.
* `pton_eq_some_iff` — what is read is what is written: the two are inverse to each other.

Nothing here names a program.
-/

namespace FreeFlow.Found

/-! ## Decimals -/

/-- A natural number has digits only. Kind: L -/
lemma isDigit_of_mem_toString_nat {n : ℕ} {c : Char} (h : c ∈ (toString n).toList) :
    c.isDigit = true := by
  rw [Nat.toString_eq_repr, Nat.toList_repr] at h
  exact Nat.isDigit_of_mem_toDigits (by norm_num) (by norm_num) h

/-- A character that is no digit is in no natural number. Kind: L -/
lemma not_mem_toString_nat {c : Char} (hc : c.isDigit = false) (n : ℕ) :
    c ∉ (toString n).toList := by
  intro h
  rw [isDigit_of_mem_toString_nat h] at hc
  cases hc

/-- A character that is neither a digit nor the minus is in no integer. Kind: L -/
lemma not_mem_toString_int {c : Char} (hc : c.isDigit = false) (hminus : c ≠ '-') (n : ℤ) :
    c ∉ (toString n).toList := by
  rw [Int.toString_eq_repr, Int.repr_eq_if]
  split
  · exact not_mem_toString_nat hc _
  · rw [String.toList_append, List.mem_append, not_or]
    exact ⟨by simpa using hminus, not_mem_toString_nat hc _⟩

/-- The bytes of a text of digits. Kind: L -/
lemma utf8Len_eq_length {cs : List Char} (h : ∀ c ∈ cs, c.isDigit = true) :
    String.utf8Len cs = cs.length := by
  induction cs with
  | nil => rfl
  | cons c cs ih =>
      have hsize : c.utf8Size = 1 := by
        have hdigit := Char.isDigit_iff_toNat.mp (h c (by simp))
        have hle : c.toNat ≤ 57 := hdigit.2
        exact Char.utf8Size_eq_one_iff.mpr (UInt32.le_iff_toNat_le.mpr (hle.trans (by decide)))
      rw [String.utf8Len_cons, ih fun d hd => h d (by simp [hd]), hsize, List.length_cons]

/-- A number below `10 ^ e` has at most `e` bytes. Kind: L -/
lemma size_toString_nat_le {n e : ℕ} (he : 0 < e) (h : n < 10 ^ e) :
    (toString n).utf8ByteSize ≤ e := by
  have hdigits : ∀ c ∈ Nat.toDigits 10 n, c.isDigit = true := fun c hc =>
    Nat.isDigit_of_mem_toDigits (by norm_num) (by norm_num) hc
  rw [Nat.toString_eq_ofList_toDigits, String.utf8ByteSize_ofList, utf8Len_eq_length hdigits]
  exact (Nat.length_toDigits_le_iff (by norm_num) he).mpr h

/-- An integer of absolute value below `10 ^ e` has at most one byte more. Kind: L -/
lemma size_toString_int_le {n : ℤ} {e : ℕ} (he : 0 < e) (h : n.natAbs < 10 ^ e) :
    (toString n).utf8ByteSize ≤ e + 1 := by
  rw [Int.toString_eq_repr, Int.repr_eq_if]
  split
  case isTrue hn =>
    have hle := size_toString_nat_le he (show n.toNat < 10 ^ e by omega)
    exact hle.trans (Nat.le_succ e)
  case isFalse hn =>
    have hle := size_toString_nat_le he (show (-n).toNat < 10 ^ e by omega)
    have hminus : "-".utf8ByteSize = 1 := by decide
    rw [String.utf8ByteSize_append, hminus, Nat.add_comm]
    exact Nat.succ_le_succ hle

/-- What stands before the first separator, and what stands behind it. Kind: L -/
lemma append_cons_inj {α : Type*} {c : α} {xs ys s t : List α} (hx : c ∉ xs) (hy : c ∉ ys)
    (h : xs ++ c :: s = ys ++ c :: t) : xs = ys ∧ s = t := by
  induction xs generalizing ys with
  | nil =>
      cases ys with
      | nil => exact ⟨rfl, (List.cons.inj h).2⟩
      | cons y ys => exact absurd (List.cons.inj h).1 fun heq => hy (by simp [heq])
  | cons x xs ih =>
      cases ys with
      | nil => exact absurd (List.cons.inj h).1.symm fun heq => hx (by simp [heq])
      | cons y ys =>
          obtain ⟨rfl, hrest⟩ := List.cons.inj h
          obtain ⟨rfl, rfl⟩ := ih (fun hc => hx (by simp [hc])) (fun hc => hy (by simp [hc])) hrest
          exact ⟨rfl, rfl⟩

/-! ## IPv4 addresses -/

/-- `struct in_addr`: four bytes in the order of the wire. Kind: D -/
@[ext] structure InAddr where
  a : UInt8
  b : UInt8
  c : UInt8
  d : UInt8
  deriving DecidableEq, Repr

namespace InAddr

/-- The bytes. Kind: D -/
def bytes (x : InAddr) : List UInt8 := [x.a, x.b, x.c, x.d]

/-- The decimals of the bytes. Kind: D -/
def parts (x : InAddr) : List (List Char) := x.bytes.map fun v => (toString v.toNat).toList

/-- `inet_ntop(AF_INET, ...)`: `"%u.%u.%u.%u"`. Kind: D -/
def ntop (x : InAddr) : String := String.ofList (['.'].intercalate x.parts)

/-- A decimal from 0 to 255 without leading zeros. Kind: D -/
def octet (cs : List Char) : Option UInt8 :=
  ((List.range 256).find? fun n => (toString n).toList = cs).map UInt8.ofNat

/-- `inet_pton(AF_INET, ...)` on the characters of a C string: four such decimals with dots between
them. Kind: D -/
def pton (cs : List Char) : Option InAddr :=
  match (cs.splitOn '.').mapM octet with
  | some [a, b, c, d] => some ⟨a, b, c, d⟩
  | _ => none

/-- A byte is read from its decimal and from nothing else. Kind: L -/
lemma octet_eq_some_iff {cs : List Char} {v : UInt8} :
    octet cs = some v ↔ cs = (toString v.toNat).toList := by
  constructor
  · intro h
    obtain ⟨n, hn, rfl⟩ := Option.map_eq_some_iff.mp h
    have hlt : n < 256 := by simpa using List.mem_of_find?_eq_some hn
    have htext : (toString n).toList = cs := by simpa using List.find?_some hn
    rw [UInt8.toNat_ofNat', Nat.mod_eq_of_lt hlt, htext]
  · rintro rfl
    refine Option.map_eq_some_iff.mpr ⟨v.toNat, ?_, UInt8.ofNat_toNat⟩
    rw [List.find?_range_eq_some]
    refine ⟨by simp, by simpa using v.toNat_lt, fun n hn => ?_⟩
    have hne : (toString n).toList ≠ (toString v.toNat).toList := by
      rw [Ne, String.toList_inj, Nat.toString_eq_repr, Nat.toString_eq_repr, Nat.repr_inj]
      exact hn.ne
    simpa using hne

/-- The parts of a dotted address are read back. Kind: L -/
lemma mapM_octet_eq_some_iff {css : List (List Char)} {vs : List UInt8} :
    css.mapM octet = some vs ↔ css = vs.map fun v => (toString v.toNat).toList := by
  induction css generalizing vs with
  | nil => cases vs <;> simp
  | cons cs css ih =>
      cases vs with
      | nil => simp [List.mapM_cons, Option.bind_eq_some_iff]
      | cons v vs =>
          simp only [List.mapM_cons, Option.bind_eq_bind, Option.bind_eq_some_iff, Option.pure_def,
            Option.some.injEq, List.cons.injEq, octet_eq_some_iff, ih, List.map_cons]
          constructor
          · rintro ⟨_, rfl, _, rfl, rfl, rfl⟩
            exact ⟨rfl, rfl⟩
          · rintro ⟨rfl, rfl⟩
            exact ⟨v, rfl, vs, rfl, rfl, rfl⟩

/-- **Reading and writing an address**: a text is read as an address exactly when it is the dotted
form of it. Kind: P -/
theorem pton_eq_some_iff {cs : List Char} {x : InAddr} :
    pton cs = some x ↔ cs = x.ntop.toList := by
  have hsplit : cs = x.ntop.toList ↔ cs.splitOn '.' = x.parts := by
    have hdots : ∀ l ∈ x.parts, '.' ∉ l := by
      intro l hl
      obtain ⟨v, -, rfl⟩ := List.mem_map.mp hl
      exact not_mem_toString_nat (by decide) _
    rw [ntop, String.toList_ofList]
    constructor
    · rintro rfl
      exact List.splitOn_intercalate '.' hdots (by simp [parts, bytes])
    · intro h
      rw [← h, List.intercalate_splitOn]
  rw [hsplit, parts, ← mapM_octet_eq_some_iff, pton]
  split
  case h_1 a b c d heq => simp [heq, bytes, InAddr.ext_iff]
  case h_2 hne =>
    simp only [reduceCtorEq, false_iff]
    exact fun heq => hne _ _ _ _ heq

example : (InAddr.mk 10 47 0 4).ntop = "10.47.0.4" := by decide +kernel

example : pton "192.168.2.13".toList = some ⟨192, 168, 2, 13⟩ ∧ pton "10.47.0.04".toList = none ∧
    pton "10.47.0".toList = none ∧ pton "10.47.0.256".toList = none := by decide +kernel

end InAddr

end FreeFlow.Found
