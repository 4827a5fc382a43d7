import FreeFlow.Client.PostRecv
import FreeFlow.Router.PostRecv
import FreeFlow.Wire.PostSend

/-!
# A list of receives from the application to the HCA

The client's receive encoders and the router's four decoders, put together, with the notes that the
client keeps for the poll.

* `postRecv_delivers` — **round trip**: on both paths, for a QP and for an SRQ, the list handed to
  the HCA is the application's list with every address translated, and the client's ring notes, for
  every element, the application's address and the place in the client's mapping at the offset the
  HCA writes at.

Source: `cmd.c` `ibv_cmd_post_recv`, `ibv_cmd_post_srq_recv`; `ffrouter.cpp` `CtrlChannelLoop`,
`HandleRequest` (`IBV_POST_RECV`, `IBV_POST_SRQ_RECV`).
-/

namespace FreeFlow.Wire

open FreeFlow.Found FreeFlow.Verbs FreeFlow.Client FreeFlow.Router

/-! ## What lies in the channel -/

/-- A receive as it lies in the channel: its fields, and its elements as offsets. Kind: D -/
def wireRecv (map : UInt32 → Option Client.MrShm) (w : RecvWr) : PostedRecv :=
  ⟨w.fields, w.sgList.map (offsetSge map)⟩

/-- The channel view keeps the number of elements. Kind: L -/
@[simp] lemma recvElements_wireRecv (map : UInt32 → Option Client.MrShm) (ws : List RecvWr) :
    recvElements (ws.map (wireRecv map)) = recvSgeTotal ws := by
  simp [recvElements, recvSgeTotal, wireRecv, Function.comp_def]

/-- The encoder's arrays are what the decoders start from. Kind: L -/
lemma recvArrays_of_encoded {map : UInt32 → Option Client.MrShm} {m : Mem} {ws : List RecvWr}
    {p s : ℕ} (h : EncodedRecvs map m ws p s) : RecvArrays m (ws.map (wireRecv map)) p s := by
  induction ws generalizing p s with
  | nil => trivial
  | cons w ws ih =>
      obtain ⟨hfields, hsges, hrest⟩ := h
      have hlen : (wireRecv map w).sgList.length = w.sgList.length := List.length_map _
      refine ⟨hfields, ?_, ?_, ?_, ?_⟩
      · rw [hlen, hsges]
        rfl
      · rw [hlen, ← w.numSge_eq]
        rfl
      · rw [hlen]
        exact w.numSge_lt
      · rw [hlen]
        exact ih hrest

/-! ## The two paths -/

/-- The offset of an element in its region. Kind: D -/
def offsetOf (c : Lib) (e : Sge) : UInt64 :=
  e.addr - ((c.mapLkeyToMrShm e.lkey).map Client.MrShm.mr).getD 0

/-- The receive the HCA should be given for the application's `w`: the same fields, each element at
`lkey_ptr[lkey]` and its offset. Kind: D -/
def deliveredRecv (c : Lib) (R : Tables) (w : RecvWr) : PostedRecv where
  fields := w.fields
  sgList := w.sgList.map fun e => { e with addr := R.lkeyBase e.lkey + offsetOf c e }

/-- Translating what lies in the channel gives the receive the HCA should be given. Kind: L -/
lemma translateRecv_wireRecv (c : Lib) (R : Tables) (w : RecvWr) :
    translateRecv R.lkeyBase (wireRecv c.mapLkeyToMrShm w) = deliveredRecv c R w := by
  simp [translateRecv, wireRecv, deliveredRecv, offsetSge, offsetOf, Function.comp_def]

section Paths

variable {c : Lib} {handle : UInt32} {ws : List RecvWr} {m : Mem} {β : Type}
  (harea : RecvArea c handle ws m) (hne : ws ≠ []) (hfit : recvEncodedSize ws ≤ ctrlReqSize)
  (R : Tables) (clear : Bool) (queue : β)

include harea

/-- The arrays end inside the body. Kind: L -/
lemma recvBody_bounds :
    sizeofPostSend + sizeofRecvWr * ws.length + sizeofSge * recvSgeTotal ws ≤ (m.u32 8).toNat := by
  have hbody := harea.bodySize
  rw [recvEncodedSize, recvSgeOff, wrOff] at hbody
  omega

/-- The words of `struct ibv_post_recv`, as received. Kind: L -/
lemma socketBody_recvWord (old : Mem) {x : ℕ} (hx : x + 4 ≤ sizeofPostSend) :
    (socketBody m old).u32 x = m.u32 (sizeofRequestHeader + x) := by
  have hsize := recvBody_bounds harea
  exact socketBody_u32 old (by omega)

/-- The received body holds the arrays of the encoder. Kind: L -/
lemma recvArrays_socketBody (old : Mem) :
    RecvArrays (socketBody m old) (ws.map (wireRecv c.mapLkeyToMrShm)) (0 + sizeofPostSend)
      (0 + sizeofPostSend + sizeofRecvWr * ws.length) := by
  have hsize := recvBody_bounds harea
  refine RecvArrays.shift sizeofRequestHeader ?_ (fun x _ hx => socketBody_apply old ?_)
    (fun x _ hx => socketBody_apply old ?_)
  · have hsrc := recvArrays_of_encoded harea.encoded
    simpa [recvSgeOff, wrOff, Nat.add_assoc] using hsrc
  · rw [List.length_map] at hx
    omega
  · rw [recvElements_wireRecv] at hx
    omega

include hfit

/-- The body fits the buffer of the socket path. Kind: L -/
lemma recvBody_fits : (m.u32 8).toNat ≤ reqBodySize := by
  have hbody := harea.bodySize
  rw [ctrlReqSize] at hfit
  rw [sizeofRequestHeader] at hbody
  rw [reqBodySize]
  omega

include hne

/-- A channel path on the request area the encoder leaves. Kind: L -/
lemma decodeChannel_of_recvArea (B : Mapping ctrlReqSize) :
    ∃ m', decodePostRecv B R.lkeyBase clear sizeofRequestHeader (some queue) m =
        some ⟨queue, B.ptr wrOff, m'⟩ ∧
      Chained B m' sizeofRecvWr ws.length wrOff ∧ ∀ fuel, ws.length ≤ fuel →
        postedRecvs B m' fuel (B.ptr wrOff) = some (ws.map (deliveredRecv c R)) := by
  obtain ⟨m', hcall, hchained, hread⟩ := decodePostRecv_spec B R.lkeyBase clear sizeofRequestHeader
    queue m (ws.map (wireRecv c.mapLkeyToMrShm)) (by simpa using hne)
    (by rw [List.length_map]; exact harea.wrCount)
    (by rw [List.length_map]; exact recvArrays_of_encoded harea.encoded)
    (by rw [List.length_map, recvElements_wireRecv]; exact hfit)
  rw [List.length_map] at hchained hread
  refine ⟨m', hcall, hchained, fun fuel hfuel => (hread fuel hfuel).trans ?_⟩
  rw [List.map_map]
  exact congrArg some (List.map_congr_left fun w _ => translateRecv_wireRecv c R w)

/-- A socket path on the body of that request. Kind: L -/
lemma decodeSocket_of_recvArea (old : Mem) (B : Mapping reqBodySize) :
    ∃ m', decodePostRecv B R.lkeyBase clear 0 (some queue) (socketBody m old) =
        some ⟨queue, B.ptr sizeofPostSend, m'⟩ ∧
      Chained B m' sizeofRecvWr ws.length sizeofPostSend ∧ ∀ fuel, ws.length ≤ fuel →
        postedRecvs B m' fuel (B.ptr sizeofPostSend) = some (ws.map (deliveredRecv c R)) := by
  have hsize := recvBody_bounds harea
  have hbuf := recvBody_fits harea hfit
  obtain ⟨m', hcall, hchained, hread⟩ := decodePostRecv_spec B R.lkeyBase clear 0 queue
    (socketBody m old) (ws.map (wireRecv c.mapLkeyToMrShm)) (by simpa using hne)
    (by rw [List.length_map, socketBody_recvWord harea old (by decide)]; exact harea.wrCount)
    (by rw [List.length_map]; exact recvArrays_socketBody harea old)
    (by rw [List.length_map, recvElements_wireRecv]; omega)
  rw [Nat.zero_add] at hcall hchained hread
  rw [List.length_map] at hchained hread
  refine ⟨m', hcall, hchained, fun fuel hfuel => (hread fuel hfuel).trans ?_⟩
  rw [List.map_map]
  exact congrArg some (List.map_congr_left fun w _ => translateRecv_wireRecv c R w)

omit hfit hne

/-- The two paths of a QP's receives decode the request for the QP that the router knows. Kind: L -/
lemma recvPaths_eq {q : Router.Qp} (hq : Registered R handle q) (stale : Option Router.Qp)
    (B : Mapping ctrlReqSize) (B' : Mapping reqBodySize) (old : Mem) :
    channelPostRecv R stale B m =
        decodePostRecv B R.lkeyBase true sizeofRequestHeader (some q) m ∧
      socketPostRecv R B' (socketBody m old) =
        decodePostRecv B' R.lkeyBase true 0 (some q) (socketBody m old) := by
  have hword : m.u32 (sizeofRequestHeader + 16) = handle := harea.handle
  have hword' : (socketBody m old).u32 16 = handle :=
    (socketBody_recvWord harea old (by decide)).trans hword
  rw [channelPostRecv, socketPostRecv, hword, hword', hq.resolveQp, hq.resolveQp]
  exact ⟨rfl, rfl⟩

/-- So do the two paths of an SRQ's receives. Kind: L -/
lemma srqPaths_eq {srqMap : ℕ → Option Srq} {s : Srq} (hlt : handle.toNat < mapSize)
    (hs : srqMap handle.toNat = some s) (stale : Option Srq) (B : Mapping ctrlReqSize)
    (B' : Mapping reqBodySize) (old : Mem) :
    channelPostSrqRecv R srqMap stale B m =
        decodePostRecv B R.lkeyBase true sizeofRequestHeader (some s) m ∧
      socketPostSrqRecv R srqMap B' (socketBody m old) =
        decodePostRecv B' R.lkeyBase false 0 (some s) (socketBody m old) := by
  have hword : m.u32 (sizeofRequestHeader + 16) = handle := harea.handle
  have hword' : (socketBody m old).u32 16 = handle :=
    (socketBody_recvWord harea old (by decide)).trans hword
  have hresolve : ∀ stale, resolveSrq srqMap stale handle = some s := fun stale => by
    rw [resolveSrq, if_neg (by omega), hs]
  rw [channelPostSrqRecv, socketPostSrqRecv, hword, hword', hresolve, hresolve]
  exact ⟨rfl, rfl⟩

end Paths

/-! ## The notes in the ring -/

/-- The ring `Q'` after a call on the ring `Q` notes, in the slots from `head` on, every receive of
the list with the application's address and the place in the client's mapping of each element.
Kind: D -/
def Noted (c : Lib) (ws : List RecvWr) (Q Q' : WrQueue) : Prop :=
  ∀ k, ∀ hk : k < ws.length,
    let slot := Q'.queue ((Q.head.toNat + k) % 65536)
    slot.sgeNum = ws[k].sgList.length ∧
      (ws[k].sgList ≠ [] → slot.sgeQueue.records = ws[k].sgList.map fun e =>
        ⟨e.length, e.addr, ((c.mapLkeyToMrShm e.lkey).map Client.MrShm.shmPtr).getD 0 +
          offsetOf c e⟩)

/-- The note for an element names its application address. Kind: L -/
lemma noteOf_eq (c : Lib) {e : Sge} (hkey : (c.mapLkeyToMrShm e.lkey).isSome) :
    noteOf c.mapLkeyToMrShm e = ⟨e.length, e.addr,
      ((c.mapLkeyToMrShm e.lkey).map Client.MrShm.shmPtr).getD 0 + offsetOf c e⟩ := by
  obtain ⟨p, hp⟩ := Option.isSome_iff_exists.mp hkey
  have haddr : p.mr + (e.addr - p.mr) = e.addr := addr_add_offset _ _
  simp [noteOf, sgeRecord, offsetOf, hp, haddr]

/-- **The ring after a call** notes the list. Kind: L -/
lemma noted_recvsOf (c : Lib) (place : Place) (n : ℕ) (ws : List RecvWr) (Q : WrQueue)
    (hkeys : ∀ w ∈ ws, ∀ e ∈ w.sgList, (c.mapLkeyToMrShm e.lkey).isSome)
    (hlen : ws.length ≤ 65536) :
    Noted c ws Q ((recvsOf c.mapLkeyToMrShm place n ws).foldl WrQueue.record Q) := by
  intro k hk
  have hrecords := records_recvsOf c.mapLkeyToMrShm place n ws
  have hcount : (recvsOf c.mapLkeyToMrShm place n ws).length = ws.length := by
    simpa using congrArg List.length hrecords
  obtain ⟨hnum, hslot⟩ := slot_foldl_record (recvsOf c.mapLkeyToMrShm place n ws) Q
    (by omega) (k := k) (by omega)
  have hk' : (recvsOf c.mapLkeyToMrShm place n ws)[k].records =
      ws[k].sgList.map (noteOf c.mapLkeyToMrShm) := by
    have hget := List.getElem_of_eq hrecords (i := k) (by simpa [hcount] using hk)
    simpa using hget
  rw [hk'] at hnum hslot
  refine ⟨by simpa using hnum, fun hne => (hslot (by simpa using hne)).trans ?_⟩
  exact List.map_congr_left fun e he => noteOf_eq c (hkeys _ (List.getElem_mem hk) e he)

/-! ## The round trip -/

/-- What a round trip is: the client's call leaves a request area and a ring, both decoders hand a
list to the HCA on `queue` that is the application's with every address translated, and the ring
notes it. Kind: D -/
def RoundTrip {β : Type} (c : Lib) (R : Tables) (ws : List RecvWr) (Q : WrQueue) (queue : β)
    (B : Mapping ctrlReqSize) (B' : Mapping reqBodySize) (sent : Option (Mem × WrQueue))
    (channel socket : Mem → Option (RecvCall β)) : Prop :=
  ∃ m' Q' call call', sent = some (m', Q') ∧ channel m' = some call ∧ socket m' = some call' ∧
    call.queue = queue ∧ call'.queue = queue ∧
    (∀ fuel, ws.length ≤ fuel →
      postedRecvs B call.mem fuel call.wr = some (ws.map (deliveredRecv c R)) ∧
      postedRecvs B' call'.mem fuel call'.wr = some (ws.map (deliveredRecv c R))) ∧
    Noted c ws Q Q'

/-- **Post-receive round trip on both paths**: for every non-empty list of receives (any number of
elements each) whose keys are known and whose encoding fits the channel, whatever the buffers held
before, for a QP and for an SRQ that the router knows.
Source: `cmd.c` `ibv_cmd_post_recv`, `ibv_cmd_post_srq_recv`; `ffrouter.cpp` `CtrlChannelLoop`,
`HandleRequest` (`IBV_POST_RECV`, `IBV_POST_SRQ_RECV`)
Kind: P -/
theorem postRecv_delivers (c : Lib) (R : Tables) (srqMap : ℕ → Option Srq) (handle : UInt32)
    (ptr : ℕ → UInt64) (n : ℕ) (ws : List RecvWr) (m old : Mem) (Q : WrQueue)
    (B : Mapping ctrlReqSize) (B' : Mapping reqBodySize) (hne : ws ≠ [])
    (hkeys : ∀ w ∈ ws, ∀ e ∈ w.sgList, (c.mapLkeyToMrShm e.lkey).isSome)
    (hfit : recvEncodedSize ws ≤ ctrlReqSize) (hhandle : handle.toNat < mapSize) :
    (∀ q stale, R.qpMap handle.toNat = some q →
      RoundTrip c R ws Q q B B' (ibvCmdPostRecv c handle ptr n ws m Q)
        (channelPostRecv R stale B) fun m' => socketPostRecv R B' (socketBody m' old)) ∧
    ∀ s stale, srqMap handle.toNat = some s →
      RoundTrip c R ws Q s B B' (ibvCmdPostSrqRecv c handle ptr n ws m Q)
        (channelPostSrqRecv R srqMap stale B) fun m' =>
          socketPostSrqRecv R srqMap B' (socketBody m' old) := by
  -- the channel holds far fewer receives than the ring has slots
  have hlen : ws.length ≤ 65536 := by
    rw [recvEncodedSize, recvSgeOff, sizeofRecvWr, ctrlReqSize] at hfit
    omega
  have hnoted := fun place => noted_recvsOf c place n ws Q hkeys hlen
  constructor
  · intro q stale hq
    obtain ⟨m', hrun, harea⟩ := postRecvs_requestArea c .ibvPostRecv handle (.qp handle.toNat) ptr n
      ws m Q hkeys hfit
    obtain ⟨hchannel, hsocket⟩ := recvPaths_eq harea R ⟨hhandle, hq⟩ stale B B' old
    obtain ⟨m₁, hcall, -, hread⟩ := decodeChannel_of_recvArea harea hne hfit R true q B
    obtain ⟨m₂, hcall', -, hread'⟩ := decodeSocket_of_recvArea harea hne hfit R true q old B'
    exact ⟨m', _, _, _, hrun, hchannel.trans hcall, hsocket.trans hcall', rfl, rfl,
      fun fuel hfuel => ⟨hread fuel hfuel, hread' fuel hfuel⟩, hnoted _⟩
  · intro s stale hs
    obtain ⟨m', hrun, harea⟩ := postRecvs_requestArea c .ibvPostSrqRecv handle (.srq handle.toNat)
      ptr n ws m Q hkeys hfit
    obtain ⟨hchannel, hsocket⟩ := srqPaths_eq harea R hhandle hs stale B B' old
    obtain ⟨m₁, hcall, -, hread⟩ := decodeChannel_of_recvArea harea hne hfit R true s B
    obtain ⟨m₂, hcall', -, hread'⟩ := decodeSocket_of_recvArea harea hne hfit R false s old B'
    exact ⟨m', _, _, _, hrun, hchannel.trans hcall, hsocket.trans hcall', rfl, rfl,
      fun fuel hfuel => ⟨hread fuel hfuel, hread' fuel hfuel⟩, hnoted _⟩

/-- Three receives with one, two and no elements. Kind: D -/
def sampleRecvs : List RecvWr :=
  [.ofParts 1 [⟨0x10018, 8, 5⟩] (by decide),
    .ofParts 2 [⟨0x10020, 8, 5⟩, ⟨0x10030, 24, 5⟩] (by decide),
    .ofParts 3 [] (Nat.two_pow_pos 31)]

/-- The round trip of the three receives, on a QP and on an SRQ with the same handle. Kind: C -/
theorem postRecv_delivers_sample :
    RoundTrip sampleLib sampleTables sampleRecvs freshSystem.cqRing ⟨0, .rc⟩ sampleChannel
      sampleBuffer
      (ibvCmdPostRecv sampleLib 3 (fun x => .ofNat x) 0 sampleRecvs (fun _ => 0) freshSystem.cqRing)
      (channelPostRecv sampleTables none sampleChannel) (fun m' =>
        socketPostRecv sampleTables sampleBuffer (socketBody m' fun _ => 0)) ∧
    RoundTrip sampleLib sampleTables sampleRecvs freshSystem.cqRing ⟨7⟩ sampleChannel sampleBuffer
      (ibvCmdPostSrqRecv sampleLib 3 (fun x => .ofNat x) 0 sampleRecvs (fun _ => 0)
        freshSystem.cqRing)
      (channelPostSrqRecv sampleTables (fun _ => some ⟨7⟩) none sampleChannel) (fun m' =>
        socketPostSrqRecv sampleTables (fun _ => some ⟨7⟩) sampleBuffer
          (socketBody m' fun _ => 0)) := by
  have h := postRecv_delivers sampleLib sampleTables (fun _ => some ⟨7⟩) 3 (fun x => .ofNat x) 0
    sampleRecvs (fun _ => 0) (fun _ => 0) freshSystem.cqRing sampleChannel sampleBuffer (by decide)
    (by decide) (by decide) (by decide)
  exact ⟨h.1 _ none rfl, h.2 _ none rfl⟩

end FreeFlow.Wire
