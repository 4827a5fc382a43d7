import FreeFlow.Found.ByteMem

/-!
# The flow command of the client library

An application describes a flow by an attribute with any number of specs behind it, one for each
protocol header to match. The client library translates it into the command of the kernel: a struct
of 48 bytes, and behind it one kernel spec for each of the application's. How long the command gets
depends on the number of specs and on their kinds.

* `SpecKind`, `SpecKind.filter` — the kinds of specs, with the sizes of their filters.
* `ibSpecToKernSpec`, `encodeSpecs` — one spec, and the loop over all of them.
* `flowIsExp` — whether the experimental command is used. With a plain attribute the function starts
  eight bytes too far, since it expects the longer struct.
* `cmdCreateFlow` — the command; `ibvCmdCreateFlow`, `ibvExpCmdCreateFlow` — its two callers.
* `writtenSize_eq_length` — the 16-bit size in the command does not wrap.
* `writtenSize_le_cmdSize` — the command fits the memory that is set aside for it.

Source: `cmd.c` `get_filters_size`, `ib_spec_to_kern_spec`, `flow_is_exp`, `cmd_create_flow`;
`verbs.h`, `verbs_exp.h`, `kern-abi.h`, `kern-abi_exp.h`.
-/

namespace FreeFlow.Client.FlowCommand

open FreeFlow.Found FreeFlow.Found.Mem

/-! ## Kinds of specs -/

/-- `enum ibv_exp_flow_spec_type`, without the bit for inner headers. Kind: D -/
inductive SpecKind
  | eth | ib | ipv4 | ipv6 | ipv4Ext | ipv6Ext | tcp | udp | vxlanTunnel | actionTag
  deriving DecidableEq, Repr

/-- `IBV_EXP_FLOW_SPEC_INNER`. Kind: D -/
def specInner : ℕ := 0x100

/-- The numbers of the kinds. Source: `verbs_exp.h`. Kind: D -/
def SpecKind.type : SpecKind → ℕ
  | .eth => 0x20
  | .ib => 0x21
  | .ipv4 => 0x30
  | .ipv6 => 0x31
  | .ipv4Ext => 0x32
  | .ipv6Ext => 0x33
  | .tcp => 0x40
  | .udp => 0x41
  | .vxlanTunnel => 0x50
  | .actionTag => 0x1000

/-- The number in the kernel's spec: the extended kinds become the plain ones. Kind: D -/
def SpecKind.kernType : SpecKind → ℕ
  | .ipv4Ext => SpecKind.ipv4.type
  | .ipv6Ext => SpecKind.ipv6.type
  | k => k.type

/-- The kinds that only the experimental interface takes. Kind: D -/
def SpecKind.needsExp : SpecKind → Bool
  | .ib | .ipv6 | .ipv4Ext | .ipv6Ext | .vxlanTunnel | .actionTag => true
  | .eth | .ipv4 | .tcp | .udp => false

/-- The kinds whose filters may be longer than those of the kernel. Kind: D -/
def SpecKind.extendable : SpecKind → Bool
  | .ipv4Ext | .ipv6Ext | .vxlanTunnel => true
  | _ => false

/-- The `case` labels: all kinds, and most of them with the bit for inner headers.
Source: `cmd.c` `ib_spec_to_kern_spec`
Kind: D -/
def labels : List (SpecKind × Bool) :=
  [(.eth, false), (.eth, true), (.ib, false), (.ipv4, false), (.ipv4, true), (.ipv6, false),
    (.ipv6, true), (.ipv6Ext, false), (.ipv6Ext, true), (.ipv4Ext, false), (.ipv4Ext, true),
    (.tcp, false), (.udp, false), (.tcp, true), (.udp, true), (.vxlanTunnel, false),
    (.actionTag, false)]

/-- The kind that a number stands for. Kind: D -/
def specKind (type : ℕ) : Option (SpecKind × Bool) :=
  labels.find? fun l => type = l.1.type + if l.2 then specInner else 0

/-- Where the filters of a spec are, and how long. Kind: D -/
structure Filter where
  /-- the offset of `val` in the application's spec -/
  off : ℕ
  /-- the bytes that are copied of `val` and of `mask` -/
  copied : ℕ
  /-- the size of either in the kernel's spec -/
  kern : ℕ

/-- The filters of each kind. The tag of an action stands where the others have `val`, and there is
no mask; the last byte of the kernel's extended IPv6 filter is reserved.
Source: `verbs_exp.h`, `kern-abi.h`, `kern-abi_exp.h`
Kind: D -/
def SpecKind.filter : SpecKind → Filter
  | .eth => ⟨6, 16, 16⟩
  | .ib => ⟨8, 20, 20⟩
  | .ipv4 => ⟨8, 8, 8⟩
  | .ipv6 => ⟨6, 32, 32⟩
  | .ipv4Ext => ⟨8, 12, 12⟩
  | .ipv6Ext => ⟨8, 39, 40⟩
  | .tcp | .udp => ⟨6, 4, 4⟩
  | .vxlanTunnel => ⟨8, 4, 4⟩
  | .actionTag => ⟨8, 4, 4⟩

/-- The size of a kernel spec: its header, `val` and `mask`. Kind: D -/
def SpecKind.kernSize (k : SpecKind) : ℕ := 8 + 2 * k.filter.kern

/-! ## One spec -/

/-- The errors of the translation. Kind: D -/
inductive Errno
  | einval | eopnotsupp
  deriving DecidableEq, Repr

/-- `hdr.type` of the spec at `a`. Kind: D -/
def typeAt (m : Mem) (a : ℕ) : ℕ := ofLE (m.read a 4)

/-- `hdr.size` of the spec at `a`. Kind: D -/
def sizeAt (m : Mem) (a : ℕ) : ℕ := ofLE (m.read (a + 4) 2)

/-- `get_filters_size`: the size of one filter in the application's spec, which may be longer than
the kernel's if the mask has zeros there. Below eight, `hdr.size - sizeof(hdr)` is negative as an
`int`, and refused as the 0 here is.
Source: `cmd.c` `get_filters_size`
Kind: D -/
def getFiltersSize (m : Mem) (a : ℕ) (f : Filter) : Except Errno ℕ :=
  let ibFilterSize := (sizeAt m a - 8) / 2
  if ibFilterSize < f.copied then .error .einval
  else if (m.read (a + f.off + ibFilterSize + f.copied) (ibFilterSize - f.copied)).any (· ≠ 0) then
    .error .eopnotsupp
  else .ok ibFilterSize

/-- The kernel's spec, in memory that was cleared. Kind: D -/
def kernSpec (k : SpecKind) (inner : Bool) (val mask : List UInt8) : List UInt8 :=
  toLE 4 (k.kernType + if inner then specInner else 0) ++ toLE 2 k.kernSize ++ [0, 0] ++
    padTo k.filter.kern val ++ padTo k.filter.kern mask

/-- The mask of a spec. Kind: D -/
def maskAt (m : Mem) (a : ℕ) (k : SpecKind) : Except Errno (List UInt8) :=
  if k = .actionTag then .ok []
  else if k.extendable then
    (getFiltersSize m a k.filter).map fun ibFilterSize =>
      m.read (a + k.filter.off + ibFilterSize) k.filter.copied
  else .ok (m.read (a + k.filter.off + k.filter.copied) k.filter.copied)

/-- `ib_spec_to_kern_spec` on the spec at `a`; `isExp` is the interface that was called.
Source: `cmd.c` `ib_spec_to_kern_spec`
Kind: D -/
def ibSpecToKernSpec (m : Mem) (a : ℕ) (isExp : Bool) : Except Errno (List UInt8) :=
  if !isExp && decide (typeAt m a &&& specInner ≠ 0) then .error .einval
  else
    match specKind (typeAt m a) with
    | none => .error .einval
    | some (k, inner) =>
        if k.needsExp && !isExp then .error .einval
        else (maskAt m a k).map (kernSpec k inner (m.read (a + k.filter.off) k.filter.copied))

/-! ## The command -/

/-- The kinds that `flow_is_exp` looks for. Kind: D -/
def isExpType (type : ℕ) : Bool :=
  decide (type = SpecKind.ipv6.type) || decide (type = SpecKind.ipv4Ext.type) ||
    decide (type = SpecKind.ipv6Ext.type) || decide (type = SpecKind.vxlanTunnel.type) ||
    decide (type = SpecKind.actionTag.type) || decide (type &&& specInner ≠ 0)

/-- `flow_is_exp`, over `n` specs from `a` on.
Source: `cmd.c` `flow_is_exp`
Kind: D -/
def flowIsExp (m : Mem) : ℕ → ℕ → Bool
  | 0, _ => false
  | n + 1, a => isExpType (typeAt m a) || flowIsExp m n (a + sizeAt m a)

/-- The loop over `n` specs from `a` on. Source: `cmd.c` `cmd_create_flow`. Kind: D -/
def encodeSpecs (m : Mem) (isExp : Bool) : ℕ → ℕ → Except Errno (List UInt8)
  | 0, _ => .ok []
  | n + 1, a => do
      let spec ← ibSpecToKernSpec m a isExp
      let specs ← encodeSpecs m isExp n (a + sizeAt m a)
      pure (spec ++ specs)

/-- `num_of_specs` of the attribute at `p`. Kind: D -/
def numOfSpecs (m : Mem) (p : ℕ) : ℕ := (m (p + 8)).toNat

/-- A flow command, without the header that the sender fills in. Kind: D -/
structure Command where
  expFlow : Bool
  /-- `struct ibv_create_flow` behind its header, and the specs -/
  body : List UInt8
  writtenSize : ℕ
  deriving DecidableEq, Repr

/-- `comp_mask`, `qp_handle` and `flow_attr` of the command, for the attribute at `p`. Kind: D -/
def fixedPart (m : Mem) (p : ℕ) (qpHandle : UInt32) (size : ℕ) : List UInt8 :=
  [0, 0, 0, 0] ++ toLE 4 qpHandle.toNat ++
    (m.read p 4 ++ toLE 2 size ++ m.read (p + 6) 2 ++ m.read (p + 8) 1 ++ [0, 0] ++
      m.read (p + 9) 1 ++ m.read (p + 12) 4)

/-- `cmd_create_flow` up to the request: the attribute is at `p`, its specs at `ibSpec`.
Source: `cmd.c` `cmd_create_flow`
Kind: D -/
def cmdCreateFlow (m : Mem) (qpHandle : UInt32) (p ibSpec : ℕ) (isExp : Bool) :
    Except Errno Command :=
  (encodeSpecs m isExp (numOfSpecs m p) ibSpec).map fun specs =>
    -- `flow_attr.size` is a `__u16`
    let size := specs.length % 2 ^ 16
    { expFlow := flowIsExp m (numOfSpecs m p) (p + 24)
      body := fixedPart m p qpHandle size ++ specs
      writtenSize := 48 + size }

/-- `ibv_exp_cmd_create_flow`. Source: `cmd.c`. Kind: D -/
def ibvExpCmdCreateFlow (m : Mem) (qpHandle : UInt32) (attr : ℕ) : Except Errno Command :=
  cmdCreateFlow m qpHandle attr (attr + 24) true

/-- `ibv_cmd_create_flow`, whose struct has `comp_mask` in front. Source: `cmd.c`. Kind: D -/
def ibvCmdCreateFlow (m : Mem) (qpHandle : UInt32) (attr : ℕ) : Except Errno Command :=
  if (m.read attr 4).any (· ≠ 0) then .error .einval
  else cmdCreateFlow m qpHandle (attr + 4) (attr + 20) false

/-- The memory set aside for the specs of the command, with `sizeof(struct ibv_exp_kern_spec)` or
`sizeof(struct ibv_kern_spec)` for each. Kind: D -/
def cmdSize (expFlow : Bool) (n : ℕ) : ℕ := n * if expFlow then 88 else 48

/-! ## Lengths -/

/-- A result that was mapped comes from a result. Kind: L -/
lemma exists_of_map_eq_ok {ε α β : Type*} {x : Except ε α} {f : α → β} {b : β}
    (h : x.map f = .ok b) : ∃ a, x = .ok a ∧ f a = b := by
  cases x with
  | error e => cases h
  | ok a => exact ⟨a, rfl, Except.ok.inj h⟩

/-- What is copied fits the kernel's filter. Kind: L -/
lemma SpecKind.copied_le (k : SpecKind) : k.filter.copied ≤ k.filter.kern := by
  cases k <;> decide

/-- A mask fits the kernel's filter. Kind: L -/
lemma length_maskAt_le {m : Mem} {a : ℕ} {k : SpecKind} {mask : List UInt8}
    (h : maskAt m a k = .ok mask) : mask.length ≤ k.filter.kern := by
  unfold maskAt at h
  split at h
  case isTrue =>
    cases h
    exact Nat.zero_le _
  case isFalse =>
    split at h
    case isTrue =>
      obtain ⟨ibFilterSize, -, rfl⟩ := exists_of_map_eq_ok h
      simpa using k.copied_le
    case isFalse =>
      cases h
      simpa using k.copied_le

/-- **What one spec becomes**: its number is that of a kind, the interface takes the kind, and the
kernel's spec has the size of the kind. Kind: L -/
lemma spec_of_eq_ok {m : Mem} {a : ℕ} {isExp : Bool} {spec : List UInt8}
    (h : ibSpecToKernSpec m a isExp = .ok spec) :
    ∃ (k : SpecKind) (inner : Bool), typeAt m a = k.type + (if inner then specInner else 0) ∧
      (k.needsExp = true → isExp = true) ∧ spec.length = k.kernSize := by
  unfold ibSpecToKernSpec at h
  split at h
  case isTrue => cases h
  case isFalse =>
    split at h
    case h_1 => cases h
    case h_2 k inner hkind =>
      have htype := List.find?_some hkind
      split at h
      case isTrue => cases h
      case isFalse hexp =>
        obtain ⟨mask, hmask, rfl⟩ := exists_of_map_eq_ok h
        refine ⟨k, inner, by simpa using htype, ?_, ?_⟩
        · intro hneeds
          simpa [hneeds] using hexp
        · have hval : (m.read (a + k.filter.off) k.filter.copied).length ≤ k.filter.kern := by
            simpa using k.copied_le
          have hlen := length_padTo hval
          have hlen' := length_padTo (length_maskAt_le hmask)
          simp only [kernSpec, List.length_append, length_toLE, hlen, hlen', SpecKind.kernSize,
            List.length_cons, List.length_nil]
          omega

/-- One more spec. Kind: L -/
lemma encodeSpecs_succ_eq_ok {m : Mem} {isExp : Bool} {n a : ℕ} {bs : List UInt8}
    (h : encodeSpecs m isExp (n + 1) a = .ok bs) :
    ∃ spec specs, ibSpecToKernSpec m a isExp = .ok spec ∧
      encodeSpecs m isExp n (a + sizeAt m a) = .ok specs ∧ bs = spec ++ specs := by
  rw [encodeSpecs] at h
  cases hspec : ibSpecToKernSpec m a isExp with
  | error e =>
    rw [hspec] at h
    cases h
  | ok spec =>
    cases hspecs : encodeSpecs m isExp n (a + sizeAt m a) with
    | error e =>
      rw [hspec, hspecs] at h
      cases h
    | ok specs =>
      rw [hspec, hspecs] at h
      exact ⟨spec, specs, rfl, rfl, (Except.ok.inj h).symm⟩

/-- Specs with a bound each have a bound together. Kind: L -/
lemma length_encodeSpecs_le {m : Mem} {isExp : Bool} {B : ℕ}
    (heach : ∀ a spec, ibSpecToKernSpec m a isExp = .ok spec → spec.length ≤ B) {n a : ℕ}
    {bs : List UInt8} (h : encodeSpecs m isExp n a = .ok bs) : bs.length ≤ n * B := by
  induction n generalizing a bs with
  | zero =>
    cases h
    exact Nat.zero_le _
  | succ n ih =>
    obtain ⟨spec, specs, hspec, hspecs, rfl⟩ := encodeSpecs_succ_eq_ok h
    have hfirst := heach a spec hspec
    have hrest := ih hspecs
    rw [List.length_append, Nat.succ_mul]
    omega

/-- No spec is longer than `struct ibv_exp_kern_spec`. Kind: L -/
lemma length_spec_le {m : Mem} {isExp : Bool} (a : ℕ) (spec : List UInt8)
    (h : ibSpecToKernSpec m a isExp = .ok spec) : spec.length ≤ 88 := by
  obtain ⟨k, -, -, -, hlen⟩ := spec_of_eq_ok h
  have hk : k.kernSize ≤ 88 := by cases k <;> decide
  omega

/-- The plain interface takes nothing longer than `struct ibv_kern_spec`. Kind: L -/
lemma length_spec_le_of_plain {m : Mem} (a : ℕ) (spec : List UInt8)
    (h : ibSpecToKernSpec m a false = .ok spec) : spec.length ≤ 48 := by
  obtain ⟨k, -, -, hneeds, hlen⟩ := spec_of_eq_ok h
  have hk : k.needsExp = true ∨ k.kernSize ≤ 48 := by cases k <;> decide
  have hle : k.kernSize ≤ 48 := hk.resolve_left fun hexp => Bool.false_ne_true (hneeds hexp)
  omega

/-- What an accepted command is made of. Kind: L -/
lemma specs_of_eq_ok {m : Mem} {qpHandle : UInt32} {p ibSpec : ℕ} {isExp : Bool} {c : Command}
    (h : cmdCreateFlow m qpHandle p ibSpec isExp = .ok c) :
    ∃ specs, encodeSpecs m isExp (numOfSpecs m p) ibSpec = .ok specs ∧
      c = { expFlow := flowIsExp m (numOfSpecs m p) (p + 24)
            body := fixedPart m p qpHandle specs.length ++ specs
            writtenSize := 48 + specs.length } := by
  obtain ⟨specs, hspecs, rfl⟩ := exists_of_map_eq_ok h
  refine ⟨specs, hspecs, ?_⟩
  have hnum : numOfSpecs m p < 256 := (m (p + 8)).toNat_lt
  have hle := length_encodeSpecs_le length_spec_le hspecs
  have hmod : specs.length % 2 ^ 16 = specs.length := Nat.mod_eq_of_lt (by omega)
  simp only [hmod]

/-- **The size does not wrap**: `written_size` is the length of the header and of what is behind it.
Kind: P -/
theorem writtenSize_eq_length {m : Mem} {qpHandle : UInt32} {p ibSpec : ℕ} {isExp : Bool}
    {c : Command} (h : cmdCreateFlow m qpHandle p ibSpec isExp = .ok c) :
    c.writtenSize = 24 + c.body.length ∧ c.writtenSize ≤ 48 + numOfSpecs m p * 88 := by
  obtain ⟨specs, hspecs, rfl⟩ := specs_of_eq_ok h
  have hle := length_encodeSpecs_le length_spec_le hspecs
  simp only [fixedPart, List.length_append, length_toLE, length_read, List.length_cons,
    List.length_nil]
  omega

/-! ## The memory for the command -/

/-- A kind that is longer than `struct ibv_kern_spec` makes the command experimental. Kind: L -/
lemma kernSize_le_of_not_isExpType {k : SpecKind} {inner : Bool}
    (h : isExpType (k.type + if inner then specInner else 0) = false) : k.kernSize ≤ 48 := by
  cases k <;> cases inner <;> revert h <;> decide

/-- The experimental interface looks at the specs that it translates. Kind: L -/
lemma length_encodeSpecs_le_of_exp {m : Mem} {n a : ℕ} {bs : List UInt8}
    (h : encodeSpecs m true n a = .ok bs) (hexp : flowIsExp m n a = false) :
    bs.length ≤ n * 48 := by
  induction n generalizing a bs with
  | zero =>
    cases h
    exact Nat.zero_le _
  | succ n ih =>
    obtain ⟨spec, specs, hspec, hspecs, rfl⟩ := encodeSpecs_succ_eq_ok h
    obtain ⟨k, inner, htype, -, hlen⟩ := spec_of_eq_ok hspec
    rw [flowIsExp, htype, Bool.or_eq_false_iff] at hexp
    have hk := kernSize_le_of_not_isExpType hexp.1
    have hrest := ih hspecs hexp.2
    rw [List.length_append, hlen]
    omega

/-- The specs and the memory for them. Kind: L -/
lemma length_specs_le_cmdSize {m : Mem} {n a b : ℕ} {isExp : Bool} {bs : List UInt8}
    (h : encodeSpecs m isExp n a = .ok bs) (hstart : isExp = true → b = a) :
    bs.length ≤ cmdSize (flowIsExp m n b) n := by
  cases hflow : flowIsExp m n b
  case true => exact length_encodeSpecs_le length_spec_le h
  case false =>
    cases isExp
    case true =>
      obtain rfl := hstart rfl
      exact length_encodeSpecs_le_of_exp h hflow
    case false => exact length_encodeSpecs_le length_spec_le_of_plain h

/-- **The command fits the memory that is set aside for it**, with both interfaces, also when
`flow_is_exp` looks at the wrong bytes of a plain attribute. Kind: P -/
theorem writtenSize_le_cmdSize (m : Mem) (qpHandle : UInt32) (attr : ℕ) (c : Command) :
    (ibvExpCmdCreateFlow m qpHandle attr = .ok c →
        c.writtenSize ≤ 48 + cmdSize c.expFlow (numOfSpecs m attr)) ∧
      (ibvCmdCreateFlow m qpHandle attr = .ok c →
        c.writtenSize ≤ 48 + cmdSize c.expFlow (numOfSpecs m (attr + 4))) := by
  constructor
  · intro h
    obtain ⟨specs, hspecs, rfl⟩ := specs_of_eq_ok h
    have hle := length_specs_le_cmdSize hspecs fun _ => rfl
    exact Nat.add_le_add_left hle 48
  · intro h
    unfold ibvCmdCreateFlow at h
    split at h
    case isTrue => cases h
    case isFalse =>
      obtain ⟨specs, hspecs, rfl⟩ := specs_of_eq_ok h
      have hle := @length_specs_le_cmdSize m _ _ (attr + 4 + 24) _ _ hspecs
        fun hexp => by cases hexp
      exact Nat.add_le_add_left hle 48

end FreeFlow.Client.FlowCommand
