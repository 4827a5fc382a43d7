import FreeFlow.RSocket.Endpoint

/-!
# The start of a connection

Both ends register their buffers and post their receives before they know of each other. The
connection request and its answer carry a `struct rs_conn_data`: how many messages may be
outstanding, where the table for free space is, and the first half of the receive buffer. Fields are
in network order, so two hosts of different byte order understand each other; the table itself is
later written by the other host directly, which is why it swaps bytes when the orders differ.

* `rsFormatConnData`, `rsSaveConnData` — the struct as bytes, and what an end makes of it.
* `saveConnData_formatConnData` — **what one end says is what the other one understands.**
* `scaleToValue_valueToScale_le` — the eight bits for the size of the table of mappings never
  promise more entries than there are.

Source: `rsocket.c`.
-/

namespace FreeFlow.RSocket

open FreeFlow.Found

/-! ## A struct in memory -/

/-- A `struct rs_sge` takes sixteen bytes. Kind: L -/
@[simp] lemma RsSge.length_bytes (net : Bool) (e : RsSge) : (e.bytes net).length = sizeofSge := by
  simp [RsSge.bytes]

/-- A struct is determined by its sixteen bytes. Kind: L -/
lemma RsSge.read_congr {net : Bool} {m m' : Mem} {a b : ℕ}
    (h : Mem.read m a sizeofSge = Mem.read m' b sizeofSge) : read net m a = read net m' b := by
  have haddr := Mem.read_slice h (k := 0) (l := 8) (by decide)
  have hkey := Mem.read_slice h (k := 8) (l := 4) (by decide)
  have hlen := Mem.read_slice h (k := 12) (l := 4) (by decide)
  rw [Nat.add_zero, Nat.add_zero] at haddr
  rw [read, read, haddr, hkey, hlen]

/-- A host reads the struct whose bytes are there. Kind: L -/
lemma RsSge.read_of_bytes {net : Bool} {m : Mem} {a : ℕ} {e : RsSge}
    (h : Mem.read m a sizeofSge = e.bytes net) : read net m a = e := by
  have hsplit : Mem.read m a 8 ++ (Mem.read m (a + 8) 4 ++ Mem.read m (a + 12) 4) =
      Mem.toHost64 net e.addr ++ (Mem.toHost32 net e.key ++ Mem.toHost32 net e.length) := by
    rw [← List.append_assoc (Mem.toHost64 net e.addr)]
    refine Eq.trans ?_ h
    rw [← Mem.read_add, ← Mem.read_add]
  obtain ⟨haddr, hrest⟩ := List.append_inj hsplit (by simp)
  obtain ⟨hkey, hlen⟩ := List.append_inj hrest (by simp)
  rw [read, haddr, hkey, hlen, Mem.ofHost64_toHost64, Mem.ofHost32_toHost32,
    Mem.ofHost32_toHost32]

/-- A struct that was stored is read back. Kind: L -/
@[simp] lemma RsSge.read_write (net : Bool) (m : Mem) (a : ℕ) (e : RsSge) :
    read net (m.write a (e.bytes net)) a = e := by
  have h := Mem.read_write_same m a (e.bytes net)
  rw [RsSge.length_bytes] at h
  exact RsSge.read_of_bytes h

/-- A store elsewhere leaves the struct alone. Kind: L -/
lemma RsSge.read_write_disjoint {net : Bool} {m : Mem} {a b : ℕ} {bs : List UInt8}
    (h : b + sizeofSge ≤ a ∨ a + bs.length ≤ b) : read net (m.write a bs) b = read net m b :=
  RsSge.read_congr (Mem.read_write_disjoint h)

/-- A struct with its bytes swapped lies in memory as it does on a host of the other order.
Kind: L -/
lemma RsSge.bytes_bswap (net : Bool) (e : RsSge) : e.bswap.bytes net = e.bytes (!net) := by
  simp only [bytes, bswap, Mem.toHost64_bswap64, Mem.toHost32_bswap32]

/-! ## The connection data -/

/-- `rs_value_to_scale`. Source: `rsocket.c`. Kind: D -/
def rsValueToScale (value bits : ℕ) : ℕ :=
  if value ≤ 1 <<< (bits - 1) then value else 1 <<< (bits - 1) ||| value >>> bits

/-- `rs_scale_to_value`, for a value of at most `bits` bits. Source: `rsocket.c`. Kind: D -/
def rsScaleToValue (value bits : ℕ) : ℕ :=
  if value ≤ 1 <<< (bits - 1) then value else (value % 1 <<< (bits - 1)) <<< bits

/-- **No entry is promised that is not there**: the size that is read from the eight bits is not
larger than the size they were made from. Kind: L -/
lemma scaleToValue_valueToScale_le {value : ℕ} (h : value < 2 ^ 16) :
    rsScaleToValue (rsValueToScale value 8 % 256) 8 ≤ value := by
  have htop : (1 <<< (8 - 1) : ℕ) = 128 := rfl
  rw [rsValueToScale, rsScaleToValue, htop]
  by_cases hsmall : value ≤ 128
  · rw [if_pos hsmall, Nat.mod_eq_of_lt (by omega), if_pos hsmall]
  · -- the low seven bits of the scaled size are those of `value >>> 8`
    have hlow : (128 ||| value >>> 8) % 256 % 128 = value >>> 8 % 128 := by
      rw [Nat.mod_mod_of_dvd _ (by norm_num), show (128 : ℕ) = 2 ^ 7 by norm_num,
        Nat.or_mod_two_pow, Nat.mod_self, Nat.zero_or]
    rw [if_neg hsmall]
    split_ifs with hle
    · omega
    · rw [hlow, Nat.shiftLeft_eq, Nat.shiftRight_eq_div_pow]
      omega

/-- The flags of `struct rs_conn_data`: `RS_CONN_FLAG_IOMAP`, and `RS_CONN_FLAG_NET` on a host of
network order. Source: `rsocket.c` `rs_format_conn_data`. Kind: D -/
def connFlags (net : Bool) : UInt8 := if net then 3 else 2

/-- `rs_format_conn_data`, the struct as it is sent. Source: `rsocket.c`. Kind: D -/
def Rsocket.rsFormatConnData (rs : Rsocket) : List UInt8 :=
  let cfg := rs.cfg
  let targetSgl : RsSge := ⟨cfg.targetMr.addr, cfg.targetMr.rkey, UInt32.ofNat rsSglSize⟩
  let dataBuf : RsSge := ⟨cfg.rmr.addr, cfg.rmr.rkey, UInt32.ofNat (cfg.rbufSize / 2)⟩
  [1, connFlags cfg.net] ++ Mem.hostOrder true (Mem.toLE 2 cfg.rqSize) ++ [0, 0, 0] ++
    [UInt8.ofNat (rsValueToScale cfg.targetIomapSize 8)] ++ targetSgl.bytes true ++
    dataBuf.bytes true

/-- Bytes that were received, as memory. Kind: D -/
def received (bs : List UInt8) : Mem := fun i => bs.getD i 0

/-- `rs_save_conn_data`. Source: `rsocket.c`. Kind: D -/
def Rsocket.rsSaveConnData (rs : Rsocket) (conn : List UInt8) : Rsocket :=
  let m := received conn
  let flags := m 1
  let remoteSgl := RsSge.read true m 8
  let dataBuf := RsSge.read true m 24
  { rs with
    peer :=
      { remoteSgl := remoteSgl
        swapSgl := (rs.cfg.net && flags &&& 1 == 0) || (!rs.cfg.net && flags &&& 1 != 0)
        remoteIomap :=
          if flags &&& 2 ≠ 0 then
            ⟨remoteSgl.addr + UInt64.ofNat (sizeofSge * remoteSgl.length.toNat), remoteSgl.key,
              UInt32.ofNat (rsScaleToValue (m 7).toNat 8)⟩
          else rs.peer.remoteIomap }
    rx := { rs.rx with remoteSge := 1 }
    tx := { rs.tx with
      target := rs.tx.target.write 0 (dataBuf.bytes rs.cfg.net)
      sseqComp := UInt16.ofNat (Mem.ofLE (Mem.hostOrder true (m.read 2 2))) } }

/-- `rs_init_bufs` and the receives posted after it. Source: `rsocket.c` `rs_create_ep`,
`rs_init_bufs`. Kind: D -/
def rsInitBufs (cfg : Config) : Rsocket where
  cfg := cfg
  tx := { sseqNo := 0, sseqComp := 0, targetSge := 0, target := fun _ => 0 }
  rx :=
    { rseqNo := 0
      rseqComp := UInt16.ofNat (cfg.rqSize / 2)
      remoteSge := 0
      rbufBytesAvail := (cfg.rbufSize / 2 : ℕ)
      rbufFreeOffset := cfg.rbufSize / 2
      rbufOffset := 0
      rbuf := fun _ => 0
      rmsg := fun _ => 0
      rmsgHead := 0
      rmsgTail := 0 }
  out :=
    { ctrlSeqno := 0
      ctrlMaxSeqno := UInt32.ofNat rsQpCtrlSize
      sqeAvail := (cfg.sqSize : ℤ) - rsQpCtrlSize
      sbufBytesAvail := cfg.sbufSize
      ssgl := 0
      sbuf := fun _ => 0 }
  peer := { remoteSgl := ⟨0, 0, 0⟩, remoteIomap := ⟨0, 0, 0⟩, swapSgl := false }
  state := rsConnecting
  qp := { sq := [], wire := [], done := [], recvs := cfg.rqSize, cq := [], error := false }

/-- What an end knows of another one with the configuration `cfg`, on a host of the order `net`.
Kind: D -/
def Peer.of (net : Bool) (cfg : Config) : Peer where
  remoteSgl := ⟨cfg.targetMr.addr, cfg.targetMr.rkey, UInt32.ofNat rsSglSize⟩
  remoteIomap :=
    ⟨cfg.targetMr.addr + UInt64.ofNat (rsSglSize * sizeofSge), cfg.targetMr.rkey,
      UInt32.ofNat (rsScaleToValue (rsValueToScale cfg.targetIomapSize 8 % 256) 8)⟩
  swapSgl := net != cfg.net

/-- Reading what was received. Kind: L -/
lemma read_received (pre mid post : List UInt8) {a n : ℕ} (ha : pre.length = a)
    (hn : mid.length = n) : Mem.read (received (pre ++ mid ++ post)) a n = mid := by
  subst ha hn
  apply List.ext_getElem
  · simp
  · intro i hi hi'
    simp only [Mem.read, received, List.getElem_map, List.getElem_range]
    rw [List.append_assoc, List.getD_append_right _ _ _ _ (by omega), Nat.add_sub_cancel_left,
      List.getD_append _ _ _ _ hi', List.getD_eq_getElem _ _ hi']

/-- **What one end says is what the other one understands**: the connection data of `rs'`, saved by
`rs`. Kind: P -/
theorem saveConnData_formatConnData (rs rs' : Rsocket) :
    rs.rsSaveConnData rs'.rsFormatConnData = { rs with
      peer := Peer.of rs.cfg.net rs'.cfg
      rx := { rs.rx with remoteSge := 1 }
      tx := { rs.tx with
        target := rs.tx.target.write 0 ((⟨rs'.cfg.rmr.addr, rs'.cfg.rmr.rkey,
          UInt32.ofNat (rs'.cfg.rbufSize / 2)⟩ : RsSge).bytes rs.cfg.net)
        sseqComp := UInt16.ofNat rs'.cfg.rqSize } } := by
  set conn := rs'.rsFormatConnData with hconn
  have htarget : RsSge.read true (received conn) 8 =
      ⟨rs'.cfg.targetMr.addr, rs'.cfg.targetMr.rkey, UInt32.ofNat rsSglSize⟩ :=
    RsSge.read_of_bytes (read_received _ _ _ (by simp) (by simp))
  have hdata : RsSge.read true (received conn) 24 =
      ⟨rs'.cfg.rmr.addr, rs'.cfg.rmr.rkey, UInt32.ofNat (rs'.cfg.rbufSize / 2)⟩ := by
    apply RsSge.read_of_bytes
    rw [hconn, Rsocket.rsFormatConnData, ← List.append_nil (_ ++ RsSge.bytes _ _)]
    exact read_received _ _ [] (by simp [sizeofSge]) (by simp)
  have hcredits : Mem.ofLE (Mem.hostOrder true (Mem.read (received conn) 2 2)) =
      rs'.cfg.rqSize := by
    have hread : Mem.read (received conn) 2 2 =
        Mem.hostOrder true (Mem.toLE 2 rs'.cfg.rqSize) := by
      rw [hconn, Rsocket.rsFormatConnData]
      simp only [List.append_assoc]
      rw [← List.append_assoc]
      exact read_received _ _ _ rfl (by simp)
    have hle := rs'.cfg.rq_le
    rw [hread, Mem.hostOrder_hostOrder, Mem.ofLE_toLE _ _ (by norm_num; omega)]
  have hflags : received conn 1 = connFlags rs'.cfg.net := rfl
  have hiomap : received conn 7 = UInt8.ofNat (rsValueToScale rs'.cfg.targetIomapSize 8) := rfl
  have hswap : ((rs.cfg.net && connFlags rs'.cfg.net &&& 1 == 0) ||
      (!rs.cfg.net && connFlags rs'.cfg.net &&& 1 != 0)) = (rs.cfg.net != rs'.cfg.net) := by
    cases rs.cfg.net <;> cases rs'.cfg.net <;> rfl
  have hflag : connFlags rs'.cfg.net &&& 2 ≠ 0 := by
    cases rs'.cfg.net <;> decide
  rw [Rsocket.rsSaveConnData]
  simp only [htarget, hdata, hcredits, hflags, hiomap, hswap, if_pos hflag, Peer.of]
  rfl

end FreeFlow.RSocket
