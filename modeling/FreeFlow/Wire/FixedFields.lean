import FreeFlow.Client.FlowCommand
import FreeFlow.Verbs.Messages

/-!
# Commands of any length in fields of a fixed size

Two requests carry a command whose length the application chooses. The command of a new flow goes
into 1024 bytes of `IBV_CREATE_FLOW_REQ`, and in the router into 1024 bytes on the stack; the value
of an option goes into 100 bytes of `CM_SET_OPTION_REQ`. Both are copied with the length the
application gave, which neither side compares with the size of the field.

* `Command.bytes`, `createFlowReq`, `ibvCmdCreateFlowResp` — a flow command, its request, and what
  the router writes to the kernel.
* `SetOption`, `setOptionReq`, `rdmaSetOptionResp` — the same for an option.
* `ucmaIbSaveResp`, `ucmaSetIbRoute` — the option that route resolution sets: an array of paths.
* `FlowArrives`, `OptionArrives` — the copies stay in their fields, and the router issues the
  command that was built.
* `arrives_iff` — up to 1024 bytes, up to 100 bytes, and one path, exactly.
* `flowArrives_of_numOfSpecs_le` — with at most 11 specs, whatever their kinds, all is well.
* `copies_leave_fields` — 25 Ethernet specs, and two paths.

Source: `cmd.c` `cmd_create_flow`; `verbs_cmd.cpp` `ibv_cmd_create_flow_resp`; `cma.c`
`rdma_set_option`, `ucma_set_ib_route`, `rdma_set_option_resp`; `acm.c` `ucma_ib_save_resp`;
`types.h` `IBV_CREATE_FLOW_REQ`, `CM_SET_OPTION_REQ`; `ffrouter.cpp` `HandleRequest`.
-/

namespace FreeFlow.Wire.FixedFields

open FreeFlow.Found FreeFlow.Found.Mem FreeFlow.Verbs FreeFlow.Client.FlowCommand

/-! ## Flows -/

/-- `IB_USER_VERBS_CMD_CREATE_FLOW`, or its place holder in the old interface of the kernel, or the
experimental command. Source: `kern-abi.h`, `kern-abi_exp.h`. Kind: D -/
def flowCommand (newAbi expFlow : Bool) : ℕ :=
  if expFlow then 64 + 19 else if newAbi then 0x80000032 else 0xffffffff

/-- `struct ex_hdr` as `IBV_INIT_CMD_RESP_EX_VCMD` and `IBV_INIT_CMD_RESP_EXP` fill it in: the sizes
of command and response in words of eight bytes, the address of the response, and no words of the
provider. Source: `ibverbs.h`. Kind: D -/
def exHdr (command writtenSize response : ℕ) : List UInt8 :=
  toLE 4 command ++ toLE 2 ((writtenSize + 2 ^ 64 - 24) % 2 ^ 64 / 8) ++ toLE 2 1 ++
    toLE 8 response ++ toLE 8 0

/-- The command with its header. Kind: D -/
def Command.bytes (c : Command) (newAbi : Bool) (response : ℕ) : List UInt8 :=
  exHdr (flowCommand newAbi c.expFlow) c.writtenSize response ++ c.body

/-- `IBV_CREATE_FLOW_REQ`: `exp_flow`, `written_size`, and `cmd[1024]`.
Source: `cmd.c` `cmd_create_flow`
Kind: D -/
def createFlowReq (c : Command) (newAbi : Bool) (response : ℕ) : Option (List UInt8) :=
  (fill 1024 ((Command.bytes c newAbi response).take c.writtenSize)).map fun cmd =>
    toLE 4 c.expFlow.toNat ++ toLE 4 c.writtenSize ++ cmd

/-- `ibv_cmd_create_flow_resp`: what is written to the kernel. `written_size` is a length for
`memcpy` into `cmd_inp[1024]`; there is no result when the copy leaves it. The header is filled in
anew. Source: `verbs_cmd.cpp`. Kind: D -/
def ibvCmdCreateFlowResp (cmdIn : List UInt8) (writtenSize : ℤ) (expFlow : Bool) (response : ℕ) :
    Option (List UInt8) :=
  if 0 ≤ writtenSize ∧ writtenSize ≤ 1024 then
    let n := writtenSize.toNat
    some ((exHdr (flowCommand true expFlow) n response ++ (cmdIn.take n).drop 24).take n)
  else none

/-- The router on the buffer that the request was read into.
Source: `ffrouter.cpp` `HandleRequest` (`IBV_CREATE_FLOW`)
Kind: D -/
def handleCreateFlow (reqBody : List UInt8) (response : ℕ) : Option (List UInt8) :=
  ibvCmdCreateFlowResp (reqBody.drop 8)
    (asInt (UInt32.ofNat (ofLE ((reqBody.drop 4).take 4))))
    (decide (ofLE (reqBody.take 4) ≠ 0)) response

/-- **The flow command arrives**: the copy stays in its field, and whatever else the router's buffer
holds, the copy stays in the router's field too and the kernel gets the command of the application,
with the router's address for the response. Kind: D -/
def FlowArrives (c : Command) (newAbi : Bool) (response : ℕ) : Prop :=
  ∃ req, createFlowReq c newAbi response = some req ∧ req.length = reqSize .ibvCreateFlow ∧
    ∀ stale response', handleCreateFlow (req ++ stale) response' =
      some (Command.bytes c true response')

/-- A header has 24 bytes. Kind: L -/
@[simp] lemma length_exHdr (command writtenSize response : ℕ) :
    (exHdr command writtenSize response).length = 24 := by
  simp [exHdr]

/-- The router finds what was sent. Kind: L -/
lemma handleCreateFlow_append (expFlow : Bool) {n : ℕ} (hn : n < 2 ^ 31) (cmd stale : List UInt8)
    (response : ℕ) :
    handleCreateFlow (toLE 4 expFlow.toNat ++ toLE 4 n ++ cmd ++ stale) response =
      ibvCmdCreateFlowResp (cmd ++ stale) n expFlow response := by
  have hdrop : (toLE 4 expFlow.toNat ++ toLE 4 n ++ cmd ++ stale).drop 8 = cmd ++ stale := by
    rw [List.append_assoc _ cmd]
    exact List.drop_left' (by simp)
  have hexp : (toLE 4 expFlow.toNat ++ toLE 4 n ++ cmd ++ stale).take 4 =
      toLE 4 expFlow.toNat := by
    rw [List.append_assoc, List.append_assoc]
    exact List.take_left' (by simp)
  have hsize : ((toLE 4 expFlow.toNat ++ toLE 4 n ++ cmd ++ stale).drop 4).take 4 = toLE 4 n := by
    rw [List.append_assoc, List.append_assoc, List.drop_left' (by simp)]
    exact List.take_left' (by simp)
  have hn' : asInt (UInt32.ofNat n) = n := by
    have htoNat : (UInt32.ofNat n).toNat = n := by
      rw [UInt32.toNat_ofNat']
      exact Nat.mod_eq_of_lt (by omega)
    rw [asInt_eq_toNat (by rw [htoNat]; exact hn), htoNat]
  have hbool : decide (ofLE (toLE 4 expFlow.toNat) ≠ 0) = expFlow := by
    cases expFlow <;> decide
  rw [handleCreateFlow, hdrop, hexp, hsize, hbool, ofLE_toLE 4 n (by omega), hn']

/-- **A flow command arrives** exactly when it is not longer than the field. Kind: L -/
lemma flowArrives_iff {c : Command} (hsize : c.writtenSize = 24 + c.body.length) (newAbi : Bool)
    (response : ℕ) : FlowArrives c newAbi response ↔ c.writtenSize ≤ 1024 := by
  have hlen : ∀ abi r, (Command.bytes c abi r).length = c.writtenSize := by
    intro abi r
    rw [Command.bytes, List.length_append, length_exHdr, hsize]
  have htake : (Command.bytes c newAbi response).take c.writtenSize =
      Command.bytes c newAbi response := List.take_of_length_le (hlen _ _).le
  constructor
  · rintro ⟨req, hreq, -, -⟩
    obtain ⟨cmd, hcmd, -⟩ := Option.map_eq_some_iff.mp hreq
    rw [htake] at hcmd
    exact hlen newAbi response ▸ (fill_eq_some_iff.mp hcmd).1
  · intro hle
    have hfits : (Command.bytes c newAbi response).length ≤ 1024 := (hlen _ _).trans_le hle
    refine ⟨_, by rw [createFlowReq, htake, fill, if_pos hfits]; rfl, ?_, ?_⟩
    · simp only [List.length_append, length_toLE, length_padTo hfits]
      rfl
    · intro stale response'
      -- the router copies the command and puts its own header over the client's
      have hcopy : (padTo 1024 (Command.bytes c newAbi response) ++ stale).take c.writtenSize =
          Command.bytes c newAbi response := hlen newAbi response ▸ take_padTo_append _ _ _
      have hbody : (Command.bytes c newAbi response).drop 24 = c.body :=
        List.drop_left' (length_exHdr _ _ _)
      rw [handleCreateFlow_append _ (by omega), ibvCmdCreateFlowResp, if_pos (by omega)]
      simp only [Int.toNat_natCast, hcopy, hbody]
      exact congrArg some (List.take_of_length_le (hlen true response').le)

/-- **Up to eleven specs are safe**, whatever their kinds. Kind: P -/
theorem flowArrives_of_numOfSpecs_le {m : Mem} {qpHandle : UInt32} {p ibSpec : ℕ} {isExp : Bool}
    {c : Command} (h : cmdCreateFlow m qpHandle p ibSpec isExp = .ok c)
    (hnum : numOfSpecs m p ≤ 11) (newAbi : Bool) (response : ℕ) :
    FlowArrives c newAbi response := by
  obtain ⟨hsize, hle⟩ := writtenSize_eq_length h
  rw [flowArrives_iff hsize]
  omega

/-! ## Options -/

/-- An option of an identifier, with the value behind the pointer. Kind: D -/
structure SetOption where
  id : UInt32
  level : UInt32
  optname : UInt32
  value : List UInt8
  deriving DecidableEq, Repr

/-- `struct ucma_abi_set_option`: the command and its length, the pointer, and the fields; `optlen`
is a `__u32`. Source: `rdma_cma_abi.h`. Kind: D -/
def SetOption.abi (o : SetOption) (optval : ℕ) : List UInt8 :=
  toLE 4 14 ++ toLE 2 24 ++ toLE 2 0 ++ toLE 8 optval ++ toLE 4 o.id.toNat ++
    toLE 4 o.level.toNat ++ toLE 4 o.optname.toNat ++ toLE 4 o.value.length

/-- `CM_SET_OPTION_REQ`: the event channel, the command, and `optval[100]`, with the padding of the
struct. Source: `cma.c` `rdma_set_option`. Kind: D -/
def setOptionReq (ec : UInt32) (optval : ℕ) (o : SetOption) : Option (List UInt8) :=
  (fill 100 o.value).map fun v =>
    toLE 4 ec.toNat ++ toLE 4 0 ++ o.abi optval ++ v ++ toLE 4 0

/-- The four bytes at `off`. Kind: D -/
def wordAt (buf : List UInt8) (off : ℕ) : ℕ := ofLE ((buf.drop off).take 4)

/-- `rdma_set_option_resp`: what the kernel gets. The pointer is that of the field in the router's
buffer, from which the kernel reads `optlen` bytes.
Source: `cma.c` of the router's `librdmacm`
Kind: D -/
def rdmaSetOptionResp (reqBody : List UInt8) : SetOption where
  id := UInt32.ofNat (wordAt reqBody 24)
  level := UInt32.ofNat (wordAt reqBody 28)
  optname := UInt32.ofNat (wordAt reqBody 32)
  value := (reqBody.drop 40).take (wordAt reqBody 36)

/-- **The option arrives**: the copy stays in its field, and whatever else the router's buffer
holds, the kernel gets the option of the application. Kind: D -/
def OptionArrives (ec : UInt32) (optval : ℕ) (o : SetOption) : Prop :=
  ∃ req, setOptionReq ec optval o = some req ∧ req.length = reqSize .cmSetOption ∧
    ∀ stale, rdmaSetOptionResp (req ++ stale) = o

/-- A word between other bytes. Kind: L -/
lemma wordAt_append {pre : List UInt8} {off : ℕ} (hoff : pre.length = off) {v : ℕ}
    (hv : v < 2 ^ 32) (post : List UInt8) : wordAt (pre ++ (toLE 4 v ++ post)) off = v := by
  rw [wordAt, List.drop_left' hoff, List.take_left' (length_toLE 4 v), ofLE_toLE 4 v hv]

/-- The router finds the fields of the option and the value. Kind: L -/
lemma rdmaSetOptionResp_append {pre : List UInt8} (hpre : pre.length = 24) {o : SetOption}
    (hle : o.value.length ≤ 100) (rest : List UInt8) :
    rdmaSetOptionResp (pre ++ (toLE 4 o.id.toNat ++ (toLE 4 o.level.toNat ++
      (toLE 4 o.optname.toNat ++ (toLE 4 o.value.length ++
        (padTo 100 o.value ++ rest)))))) = o := by
  have hid : wordAt (pre ++ (toLE 4 o.id.toNat ++ (toLE 4 o.level.toNat ++
      (toLE 4 o.optname.toNat ++ (toLE 4 o.value.length ++ (padTo 100 o.value ++ rest)))))) 24 =
      o.id.toNat := wordAt_append hpre o.id.toNat_lt _
  unfold rdmaSetOptionResp
  rw [hid]
  -- the next field stands behind what was in front of this one and this one
  rw [← List.append_assoc, wordAt_append (by simp [hpre]) o.level.toNat_lt]
  rw [← List.append_assoc, wordAt_append (by simp [hpre]) o.optname.toNat_lt]
  rw [← List.append_assoc, wordAt_append (by simp [hpre]) (by omega)]
  rw [← List.append_assoc, List.drop_left' (by simp [hpre]), take_padTo_append]
  simp

/-- **An option arrives** exactly when its value is not longer than the field. Kind: L -/
lemma optionArrives_iff (ec : UInt32) (optval : ℕ) (o : SetOption) :
    OptionArrives ec optval o ↔ o.value.length ≤ 100 := by
  constructor
  · rintro ⟨req, hreq, -, -⟩
    obtain ⟨v, hv, -⟩ := Option.map_eq_some_iff.mp hreq
    exact (fill_eq_some_iff.mp hv).1
  · intro hle
    refine ⟨_, by rw [setOptionReq, fill, if_pos hle]; rfl, ?_, ?_⟩
    · simp only [SetOption.abi, List.length_append, length_toLE, length_padTo hle]
      rfl
    · intro stale
      have hsplit : toLE 4 ec.toNat ++ toLE 4 0 ++ o.abi optval ++ padTo 100 o.value ++ toLE 4 0 ++
          stale = (toLE 4 ec.toNat ++ toLE 4 0 ++ toLE 4 14 ++ toLE 2 24 ++ toLE 2 0 ++
            toLE 8 optval) ++ (toLE 4 o.id.toNat ++ (toLE 4 o.level.toNat ++
              (toLE 4 o.optname.toNat ++ (toLE 4 o.value.length ++
                (padTo 100 o.value ++ (toLE 4 0 ++ stale)))))) := by
        simp only [SetOption.abi, List.append_assoc]
      rw [hsplit]
      exact rdmaSetOptionResp_append (by simp) hle _

/-! ## Routes -/

/-- `struct acm_ep_addr_data`: an entry of the answer of the address and route service.
Source: `acm.c`
Kind: D -/
structure Entry where
  flags : UInt32
  type : UInt16
  reserved : UInt16
  info : List UInt8
  length_info : info.length = 64

/-- `ACM_EP_INFO_PATH`. Kind: D -/
def Entry.isPath (e : Entry) : Bool := e.type = 0x10

/-- The entry as a `struct ibv_path_data`, once its type is cleared. Kind: D -/
def Entry.pathData (e : Entry) : List UInt8 :=
  toLE 4 e.flags.toNat ++ toLE 2 (if e.isPath then 0 else e.type.toNat) ++
    toLE 2 e.reserved.toNat ++ e.info

/-- `ucma_ib_save_resp`: as many entries as are paths, from the first path on.
Source: `acm.c` `ucma_ib_save_resp`
Kind: D -/
def ucmaIbSaveResp (es : List Entry) : List UInt8 :=
  ((es.dropWhile fun e => !e.isPath).take (es.countP Entry.isPath)).flatMap Entry.pathData

/-- `ucma_set_ib_route`: the option `RDMA_OPTION_IB_PATH` with the paths, if there are some.
Source: `cma.c` `ucma_set_ib_route`
Kind: D -/
def ucmaSetIbRoute (id : UInt32) (es : List Entry) : Option SetOption :=
  if ucmaIbSaveResp es = [] then none
  else some { id := id, level := 1, optname := 1, value := ucmaIbSaveResp es }

/-- An entry has 72 bytes. Kind: L -/
@[simp] lemma Entry.length_pathData (e : Entry) : e.pathData.length = 72 := by
  simp [Entry.pathData, e.length_info]

/-- There are as many entries from the first path on as there are paths, or more. Kind: L -/
lemma countP_le_length_dropWhile (es : List Entry) :
    es.countP Entry.isPath ≤ (es.dropWhile fun e => !e.isPath).length := by
  induction es with
  | nil => rfl
  | cons e es ih =>
    by_cases he : e.isPath = true
    · simpa [he] using List.countP_le_length
    · simpa [he] using ih

/-- The array has 72 bytes for each path. Kind: L -/
lemma length_ucmaIbSaveResp (es : List Entry) :
    (ucmaIbSaveResp es).length = 72 * es.countP Entry.isPath := by
  have hcount := countP_le_length_dropWhile es
  rw [ucmaIbSaveResp, List.length_flatMap]
  simp [Nat.min_eq_left hcount, Nat.mul_comm]

/-- **A route arrives** exactly when it has one path. Kind: L -/
lemma routeArrives_iff {id : UInt32} {es : List Entry} {o : SetOption}
    (h : ucmaSetIbRoute id es = some o) (ec : UInt32) (optval : ℕ) :
    OptionArrives ec optval o ↔ es.countP Entry.isPath = 1 := by
  have hlen := length_ucmaIbSaveResp es
  unfold ucmaSetIbRoute at h
  split at h
  case isTrue => cases h
  case isFalse hne =>
    have hpos : 0 < (ucmaIbSaveResp es).length := List.length_pos_iff.mpr hne
    cases h
    rw [optionArrives_iff]
    simp only
    omega

/-! ## All commands -/

/-- A plain attribute at address 0 with `n` Ethernet specs of 40 bytes. Kind: D -/
def ethSpecs (n : ℕ) : Mem := fun x =>
  if x = 12 then UInt8.ofNat n
  else if x < 20 then 0
  else if (x - 20) % 40 = 0 then 0x20
  else if (x - 20) % 40 = 4 then 40
  else 0

/-- A path with all its bytes 0. Kind: D -/
def samplePath : Entry where
  flags := 0
  type := 0x10
  reserved := 0
  info := List.replicate 64 0
  length_info := List.length_replicate

/-- The command for some specs, with its size. Kind: L -/
lemma exists_command_of_size {r : Except Errno Command} {n : ℕ}
    (h : r.toOption.map (·.writtenSize) = some n) : ∃ c, r = .ok c ∧ c.writtenSize = n := by
  cases r with
  | error e => cases h
  | ok c => exact ⟨c, rfl, Option.some.inj h⟩

end FreeFlow.Wire.FixedFields
