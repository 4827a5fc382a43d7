import FreeFlow.Verbs.Layout

/-!
# The request and response structs of the socket protocol

Client libraries and router share one header of message structs (`types.h` in the router,
`freeflow-types.h` in the libraries, with the same structs). On a socket a message is the bytes of
such a struct, so what framing depends on is their sizes, here for the x86-64 ABI.

* `reqSize`, `rspSize` — `sizeof(struct X_REQ)` and `sizeof(struct X_RSP)` for each request type.
* `RdmaFunctionCall.ofCode` — the request type a header's `func` names.

Source: `types.h`, `freeflow-types.h`.
-/

namespace FreeFlow.Verbs

open FreeFlow.Found

/-- `sizeof(struct FfrResponseHeader)`. Source: `types.h`. Kind: D -/
def sizeofResponseHeader : ℕ := 4

/-- `sizeof(struct ibv_wc)`. Source: `verbs.h`. Kind: D -/
def sizeofWc : ℕ := 48

/-- `sizeof(struct X_REQ)` for request type `X`; 0 for a type without a request struct, and for the
posts, whose bodies have the size their header gives. Source: `types.h`. Kind: D -/
def reqSize : RdmaFunctionCall → ℕ
  | .ibvExpQueryDev => 32
  | .ibvQueryPort => 1
  | .ibvDeallocPd => 4
  | .ibvCreateCq => 12
  | .ibvDestroyCq => 4
  | .ibvReqNotifyCq => 8
  | .ibvCreateQp => 44
  | .ibvDestroyQp => 4
  | .ibvRegMr => 112
  | .ibvRegMrMapping => 24
  | .ibvDeregMr => 4
  | .ibvModifyQp => 152
  | .ibvQueryQp => 104
  | .ibvPollCq => 8
  | .ibvDestroyCompChannel => 4
  | .ibvGetCqEvent => 4
  | .ibvAckCqEvent => 8
  | .ibvCreateAh => 40
  | .ibvDestroyAh => 4
  | .ibvCreateFlow => 1032
  | .ibvDestroyFlow => 32
  | .ibvCreateSrq => 32
  | .ibvModifySrq => 20
  | .ibvDestroySrq => 4
  | .cmDestroyEventChannel => 4
  | .cmCreateId => 40
  | .cmBindIp => 56
  | .cmBind => 152
  | .cmGetEvent => 24
  | .cmQueryRoute => 32
  | .cmListen => 20
  | .cmResolveIp => 76
  | .cmResolveAddr => 288
  | .cmUcmaQueryAddr => 32
  | .cmUcmaQueryGid => 32
  | .cmUcmaProcessConnResp => 304
  | .cmDestroyId => 32
  | .cmResolveRoute => 20
  | .cmUcmaQueryPath => 32
  | .cmInitQpAttr => 32
  | .cmConnect => 292
  | .cmAccept => 304
  | .cmSetOption => 144
  | .cmMigrateId => 32
  | .cmDisconnect => 16
  | .socketSocket => 12
  | .socketAccept4 => 4
  | .socketConnect => 20
  | _ => 0

/-- `sizeof(struct X_RSP)` for request type `X`; 0 for a type without a response struct, and for
`IBV_POLL_CQ`, whose response is counted. Source: `types.h`. Kind: D -/
def rspSize : RdmaFunctionCall → ℕ
  | .ibvGetContext => 8
  | .ibvQueryDev => 232
  | .ibvExpQueryDev => 424
  | .ibvQueryPort => 48
  | .ibvAllocPd => 4
  | .ibvDeallocPd => 4
  | .ibvCreateCq => 108
  | .ibvDestroyCq => 4
  | .ibvReqNotifyCq => 4
  | .ibvCreateQp => 128
  | .ibvDestroyQp => 4
  | .ibvRegMr => 112
  | .ibvRegMrMapping => 4
  | .ibvDeregMr => 4
  | .ibvModifyQp => 8
  | .ibvQueryQp => 136
  | .ibvPostSend => 8
  | .ibvPostRecv => 8
  | .ibvPostSrqRecv => 8
  | .ibvCreateCompChannel => 4
  | .ibvDestroyCompChannel => 4
  | .ibvGetCqEvent => 12
  | .ibvAckCqEvent => 12
  | .ibvCreateAh => 8
  | .ibvDestroyAh => 4
  | .ibvCreateFlow => 12
  | .ibvDestroyFlow => 4
  | .ibvCreateSrq => 104
  | .ibvModifySrq => 4
  | .ibvDestroySrq => 4
  | .cmCreateEventChannel => 8
  | .cmDestroyEventChannel => 4
  | .cmCreateId => 8
  | .cmBindIp => 4
  | .cmBind => 4
  | .cmGetEvent => 336
  | .cmQueryRoute => 208
  | .cmListen => 4
  | .cmResolveIp => 4
  | .cmResolveAddr => 4
  | .cmUcmaQueryAddr => 280
  | .cmUcmaQueryGid => 280
  | .cmUcmaProcessConnResp => 4
  | .cmDestroyId => 8
  | .cmResolveRoute => 4
  | .cmUcmaQueryPath => 448
  | .cmInitQpAttr => 148
  | .cmConnect => 4
  | .cmAccept => 4
  | .cmSetOption => 4
  | .cmMigrateId => 8
  | .cmDisconnect => 4
  | .socketSocket => 4
  | .socketBind => 4
  | .socketAccept => 4
  | .socketAccept4 => 4
  | .socketConnect => 4
  | _ => 0

/-- All request types in the order of their numbers. Kind: D -/
def RdmaFunctionCall.all : List RdmaFunctionCall :=
  [.ibvGetDeviceList, .ibvGetContext, .ibvQueryDev, .ibvExpQueryDev, .ibvQueryPort, .ibvAllocPd,
    .ibvDeallocPd, .ibvCreateQp, .ibvModifyQp, .ibvQueryQp, .ibvDestroyQp, .ibvCreateSrq,
    .ibvModifySrq, .ibvPostSrqRecv, .ibvDestroySrq, .ibvCreateCq, .ibvDestroyCq, .ibvPollCq,
    .ibvGetCqEvent, .ibvAckCqEvent, .ibvReqNotifyCq, .ibvRegMr, .ibvRegMrMapping, .ibvDeregMr,
    .ibvRegCm, .ibvPostSend, .ibvPostRecv, .ibvCreateCompChannel, .ibvDestroyCompChannel,
    .ibvCreateAh, .ibvDestroyAh, .ibvCreateFlow, .ibvDestroyFlow, .ibvMalloc, .ibvFree,
    .ibvResizeCq, .cmCreateEventChannel, .cmDestroyEventChannel, .cmCreateId, .cmBindIp, .cmBind,
    .cmGetEvent, .cmQueryRoute, .cmListen, .cmResolveIp, .cmResolveAddr, .cmUcmaQueryAddr,
    .cmUcmaQueryGid, .cmUcmaProcessConnResp, .cmDestroyId, .cmResolveRoute, .cmUcmaQueryPath,
    .cmInitQpAttr, .cmConnect, .cmAccept, .cmSetOption, .cmMigrateId, .cmDisconnect, .socketSocket,
    .socketBind, .socketAccept, .socketAccept4, .socketConnect]

/-- The request type with number `n`, if there is one. Kind: D -/
def RdmaFunctionCall.ofCode (n : ℕ) : Option RdmaFunctionCall := RdmaFunctionCall.all[n]?

/-- A request type is found under its number. Kind: L -/
lemma RdmaFunctionCall.ofCode_code (f : RdmaFunctionCall) : ofCode f.code.toNat = some f := by
  cases f <;> rfl

/-- `struct FfrRequestHeader` as it goes over the wire: client id, request type, size of the body.
Source: `types.h`. Kind: D -/
def headerBytes (clientId : UInt32) (f : RdmaFunctionCall) (bodySize : ℕ) : List UInt8 :=
  Mem.toLE 4 clientId.toNat ++ (Mem.toLE 4 f.code.toNat ++ Mem.toLE 4 bodySize)

/-- A header has the size of the struct. Kind: L -/
@[simp] lemma length_headerBytes (clientId : UInt32) (f : RdmaFunctionCall) (n : ℕ) :
    (headerBytes clientId f n).length = sizeofRequestHeader := by
  simp [headerBytes, sizeofRequestHeader]

/-- The request type and the body size as `HandleRequest` takes them from the first bytes it has
read. Kind: D -/
def headerFunc (up : List UInt8) : Option RdmaFunctionCall :=
  RdmaFunctionCall.ofCode (Mem.ofLE ((up.drop 4).take 4))

/-- See `headerFunc`. Kind: D -/
def headerBodySize (up : List UInt8) : ℕ := Mem.ofLE ((up.drop 8).take 4)

/-- The request type of a header is read back. Kind: L -/
lemma headerFunc_headerBytes (clientId : UInt32) (f : RdmaFunctionCall) (n : ℕ)
    (rest : List UInt8) : headerFunc (headerBytes clientId f n ++ rest) = some f := by
  have hslice : ((headerBytes clientId f n ++ rest).drop 4).take 4 = Mem.toLE 4 f.code.toNat := by
    rw [headerBytes, List.append_assoc, List.append_assoc,
      List.drop_left' (Mem.length_toLE 4 _), List.take_left' (Mem.length_toLE 4 _)]
  rw [headerFunc, hslice, Mem.ofLE_toLE _ _ (lt_of_lt_of_eq f.code.toNat_lt (by norm_num)),
    RdmaFunctionCall.ofCode_code]

/-- The body size of a header is read back. Kind: L -/
lemma headerBodySize_headerBytes (clientId : UInt32) (f : RdmaFunctionCall) {n : ℕ}
    (hn : n < 2 ^ 32) (rest : List UInt8) :
    headerBodySize (headerBytes clientId f n ++ rest) = n := by
  have hslice : ((headerBytes clientId f n ++ rest).drop 8).take 4 = Mem.toLE 4 n := by
    rw [headerBytes, ← List.append_assoc, List.append_assoc,
      List.drop_left' (by simp), List.take_left' (Mem.length_toLE 4 _)]
  rw [headerBodySize, hslice, Mem.ofLE_toLE _ _ (lt_of_lt_of_eq hn (by norm_num))]

end FreeFlow.Verbs
