import FreeFlow.Client.PostSend
import FreeFlow.Router.PostSend

/-!
# A post-send request from the application to the HCA

The client's encoder and the router's two decoders, put together. What the encoder leaves in the
channel is the array form of the application's list (`wireView`); each decoder turns it into a
linked list again, with addresses of the router.

* `channelPostSend_delivers` — **round trip**: on a QP that is not UD, the list the channel path
  hands to `ibv_post_send` is the application's list with every address translated.
* `channel_eq_socket_iff` — **the two paths**: the channel path and the socket path hand over the
  same list exactly when all address handles of a UD list lead to the same entry of `ah_map` and
  the token bucket admits every element. The channel path reads the first handle for every
  request, because its copy of the loop lacks `ah = ah + 1`.

Source: `cmd.c` `ibv_cmd_post_send`; `ffrouter.cpp` `CtrlChannelLoop`, `HandleRequest`
(`IBV_POST_SEND`).
-/

namespace FreeFlow.Wire

open FreeFlow.Found FreeFlow.Verbs FreeFlow.Client FreeFlow.Router

/-! ## What lies in the channel -/

/-- A request as it lies in the channel: its fields, and its elements as offsets. Kind: D -/
def wireView (map : UInt32 → Option Client.MrShm) (w : SendWr) : Posted :=
  ⟨w.fields, w.sgList.map (offsetSge map)⟩

/-- The channel view keeps the number of elements. Kind: L -/
@[simp] lemma elements_wireView (map : UInt32 → Option Client.MrShm) (ws : List SendWr) :
    elements (ws.map (wireView map)) = sgeTotal ws := by
  simp [elements, sgeTotal, wireView, Function.comp_def]

/-- The encoder's arrays are what the decoders start from. Kind: L -/
lemma arrays_of_encoded {map : UInt32 → Option Client.MrShm} {ud : Bool} {m : Mem}
    {ws : List SendWr} {p s a : ℕ} (h : Encoded map ud m ws p s a) :
    Arrays m (ws.map (wireView map)) p s := by
  induction ws generalizing p s a with
  | nil => trivial
  | cons w ws ih =>
      obtain ⟨hblock, hsges, -, hrest⟩ := h
      have hlen : (wireView map w).sgList.length = w.sgList.length := List.length_map _
      have hfields : fieldsAt m p = w.fields := fieldsAt_congr hblock
      refine ⟨hfields, ?_, ?_, ?_, ?_⟩
      · rw [hlen, hsges]
        rfl
      · rw [hlen, ← w.numSge_eq]
        rfl
      · rw [hlen]
        exact w.numSge_lt
      · rw [hlen]
        exact ih hrest

/-- On a UD QP the `k`-th word behind the elements is the handle of the `k`-th request.
Kind: L -/
lemma handle_of_encoded {map : UInt32 → Option Client.MrShm} {m : Mem} {ws : List SendWr}
    {p s a : ℕ} (h : Encoded map true m ws p s a) {k : ℕ} (hk : k < ws.length) :
    m.u32 (a + 4 * k) = ws[k].ahHandle := by
  induction ws generalizing p s a k with
  | nil => simp at hk
  | cons w ws ih =>
      obtain ⟨-, -, hah, hrest⟩ := h
      cases k with
      | zero => exact hah rfl
      | succ k =>
          rw [List.getElem_cons_succ, ← ih hrest (by simpa using hk)]
          congr 1
          ring

/-! ## The decoders on lists, for a table that stays -/

/-- A request with the router's addresses: the remote address through the rkey's entry when the
opcode is one-sided and the entry exists, the elements through `lkey_ptr`, and on a UD QP the
address handle `h`. Kind: D -/
def translate (R : Tables) (ud : Bool) (h : UInt32) (o : Posted) : Posted where
  fields :=
    let f := match oneSided o.fields.opcode, R.rkeyMrShm o.fields.rkey with
      | true, some e =>
          { o.fields with remoteAddr := e.shmPtr + o.fields.remoteAddr - e.mrPtr }
      | _, _ => o.fields
    if ud then { f with remoteAddr := R.ahMap h } else f
  sgList := o.sgList.map fun e => { e with addr := R.lkeyBase e.lkey + e.addr }

/-- With one handle instead of another a UD request is the same exactly when both lead to the same
word of `ah_map`. Kind: L -/
lemma translate_eq_iff (R : Tables) (ud : Bool) (h h' : UInt32) (o : Posted) :
    translate R ud h o = translate R ud h' o ↔ (ud = true → R.ahMap h = R.ahMap h') := by
  cases ud with
  | false => simp [translate]
  | true => simp [translate]

/-- Retrying a lookup whose answer stays the same gives that answer. Kind: L -/
lemma retryLookup_of_stable {tbl : ℕ → UInt32 → Option Router.MrShm} {rkey : UInt32}
    {v : Option Router.MrShm} (h : ∀ t, tbl t rkey = v) (left t : ℕ) :
    (retryLookup tbl rkey left t).2 = v := by
  induction left generalizing t with
  | zero => exact h t
  | succ left ih =>
      rw [retryLookup, h t]
      cases v with
      | none => exact ih (t + 1)
      | some e => rfl

/-- The fields of a translated request are what a decoder computes whose lookup answers with the
table. Kind: L -/
lemma translate_fields {κ σ : Type} (D : Decoder κ σ) (R : Tables) (ud : Bool) (h : UInt32)
    (o : Posted) (look : κ) (hah : D.ahMap = R.ahMap)
    (hlook : oneSided o.fields.opcode →
      (D.lookup look o.fields.rkey).2 = R.rkeyMrShm o.fields.rkey) :
    ahFields D ud h (remoteFields D look o.fields).2 = (translate R ud h o).fields := by
  have hremote : (remoteFields D look o.fields).2 =
      match oneSided o.fields.opcode, R.rkeyMrShm o.fields.rkey with
      | true, some e =>
          { o.fields with remoteAddr := e.shmPtr + o.fields.remoteAddr - e.mrPtr }
      | _, _ => o.fields := by
    unfold remoteFields
    by_cases hop : oneSided o.fields.opcode
    · rw [if_pos hop, hop, ← hlook hop]
      rcases D.lookup look o.fields.rkey with ⟨look', _ | e⟩ <;> rfl
    · rw [if_neg hop]
      simp [hop]
  rw [hremote, translate, ahFields, hah]

/-- **The channel path on lists**: while the entries it looks up stay, it always ends, and every
request is translated with the handle it reads. Kind: L -/
lemma decodeList_channel (R : Tables) (tbl : ℕ → UInt32 → Option Router.MrShm) (ud : Bool)
    (os : List Posted) (hs : ℕ → UInt32) (look : ℕ × ℕ)
    (hstable : ∀ o ∈ os, oneSided o.fields.opcode → ∀ t,
      tbl t o.fields.rkey = R.rkeyMrShm o.fields.rkey) :
    decodeList (channelDecoder R tbl) ud os hs look () =
      some (os.mapIdx fun k o => translate R ud (hs k) o) := by
  induction os generalizing hs look with
  | nil => rfl
  | cons o os ih =>
      have hfields := translate_fields (channelDecoder R tbl) R ud (hs 0) o look rfl
        fun hop => retryLookup_of_stable (hstable o (by simp) hop) _ _
      have hsges : patchList (channelDecoder R tbl).element () o.sgList =
          some ((), (translate R ud (hs 0) o).sgList) := patchList_pure _ _
      rw [decodeList, List.mapIdx_cons]
      simp only [hsges, Option.bind_eq_bind, Option.bind_some, hfields,
        ih _ _ fun o' ho' => hstable o' (by simp [ho'])]

/-! ## The round trip through the channel -/

/-- The QP `q` is the one the router knows under `handle`. Kind: D -/
def Registered (R : Tables) (handle : UInt32) (q : Router.Qp) : Prop :=
  handle.toNat < mapSize ∧ R.qpMap handle.toNat = some q

/-- A registered QP is found, whatever the loop's variable held. Kind: L -/
lemma Registered.resolveQp {R : Tables} {handle : UInt32} {q : Router.Qp}
    (h : Registered R handle q) (stale : Option Router.Qp) : resolveQp R stale handle = some q := by
  rw [Router.resolveQp, if_neg (by have hlt := h.1; omega), h.2]

/-- The request the HCA should be given for the application's `w`: the same fields, each element
at `lkey_ptr[lkey] + (address - base of its region)`, and the remote address of a one-sided
request at `shm_ptr + remote_addr - mr_ptr` of its rkey's entry. Kind: D -/
def delivered (c : Lib) (R : Tables) (w : SendWr) : Posted where
  fields := match oneSided w.fields.opcode, R.rkeyMrShm w.fields.rkey with
    | true, some e => { w.fields with remoteAddr := e.shmPtr + w.fields.remoteAddr - e.mrPtr }
    | _, _ => w.fields
  sgList := w.sgList.map fun e =>
    { e with addr := R.lkeyBase e.lkey +
        (e.addr - ((c.mapLkeyToMrShm e.lkey).map Client.MrShm.mr).getD 0) }

/-- Without address handles, translating what lies in the channel gives the request the HCA
should be given. Kind: L -/
lemma translate_wireView (c : Lib) (R : Tables) (h : UInt32) (w : SendWr) :
    translate R false h (wireView c.mapLkeyToMrShm w) = delivered c R w := by
  simp [translate, wireView, delivered, offsetSge, Function.comp_def]

/-- The channel path on the request area the encoder leaves. Kind: L -/
lemma channelPostSend_of_requestArea {c : Lib} {R : Tables} {qp : Client.Qp} {q : Router.Qp}
    {ws : List SendWr} {m : Mem} (tbl : ℕ → UInt32 → Option Router.MrShm)
    (stale : Option Router.Qp) (B : Mapping ctrlReqSize) (harea : RequestArea c qp ws m)
    (hne : ws ≠ []) (hfit : encodedSize qp ws ≤ ctrlReqSize) (hq : Registered R qp.handle q)
    (hstable : ∀ w ∈ ws, oneSided w.fields.opcode → ∀ t,
      tbl t w.fields.rkey = R.rkeyMrShm w.fields.rkey) :
    ∃ call, channelPostSend R tbl stale B m = some call ∧ call.qp = q ∧
      ∀ fuel, ws.length ≤ fuel → posted B call.mem fuel call.wr = some (ws.map fun w =>
        translate R (decide (q.qpType = .ud)) (m.u32 (ahOff ws.length (sgeTotal ws)))
          (wireView c.mapLkeyToMrShm w)) := by
  have hsize : ahOff ws.length (sgeTotal ws) ≤ ctrlReqSize := by
    rw [encodedSize] at hfit
    omega
  have hspec := decodePostSend_spec (channelDecoder R tbl) B sizeofRequestHeader q (5, 0) () m
    (ws.map (wireView c.mapLkeyToMrShm)) (by simpa using hne)
    (by rw [List.length_map]; exact harea.wrCount)
    (by rw [elements_wireView]; exact harea.sgeCount)
    (by rw [List.length_map]; exact arrays_of_encoded harea.encoded)
    (by rw [List.length_map, elements_wireView]; exact hsize)
  rw [decodeList_channel R tbl _ _ _ _ (by simpa [wireView] using hstable)] at hspec
  obtain ⟨call, hcall, hcallqp, hread⟩ := hspec
  refine ⟨call, ?_, hcallqp, fun fuel hfuel => ?_⟩
  · have hhandle : m.u32 (sizeofRequestHeader + 16) = qp.handle := harea.qpHandle
    rw [channelPostSend, hhandle, hq.resolveQp, hcall]
  · rw [hread fuel (by simpa using hfuel), elements_wireView, List.length_map]
    -- the cursor `ah` does not move, so every request reads the first word
    refine congrArg some (List.ext_getElem (by simp) fun k hk hk' => ?_)
    simp [channelDecoder, ahOff, sgeOff, wrOff]

/-- **Post-send round trip**: for every QP that is not UD and every non-empty list of requests
(any number of elements each) whose keys are known and whose encoding fits the channel, whatever
the channel held before and whatever else happens to the rkey table meanwhile, the encoder ends,
the channel path calls `ibv_post_send` on that QP, and the list it hands over is the application's,
request by request.
Source: `cmd.c` `ibv_cmd_post_send`; `ffrouter.cpp` `CtrlChannelLoop` (`IBV_POST_SEND`)
Kind: P -/
theorem channelPostSend_delivers (c : Lib) (R : Tables) (tbl : ℕ → UInt32 → Option Router.MrShm)
    (qp : Client.Qp) (q : Router.Qp) (stale : Option Router.Qp) (B : Mapping ctrlReqSize)
    (ws : List SendWr) (m : Mem) (hne : ws ≠ []) (hud : qp.qpType ≠ .ud)
    (hq : Registered R qp.handle q) (htype : q.qpType = qp.qpType)
    (hlkeys : ∀ w ∈ ws, ∀ e ∈ w.sgList, (c.mapLkeyToMrShm e.lkey).isSome)
    (hrkeys : ∀ w ∈ ws, oneSided w.fields.opcode → ∃ e,
      R.rkeyMrShm w.fields.rkey = some e ∧ ∀ t, tbl t w.fields.rkey = some e)
    (hfit : encodedSize qp ws ≤ ctrlReqSize) :
    ∃ m' copies call, ibvCmdPostSend c qp ws m = some (m', copies) ∧
      channelPostSend R tbl stale B m' = some call ∧ call.qp = q ∧
      ∀ fuel, ws.length ≤ fuel →
        posted B call.mem fuel call.wr = some (ws.map (delivered c R)) := by
  obtain ⟨m', hrun, harea, -⟩ := ibvCmdPostSend_requestArea c qp ws m hlkeys hfit
  have hstable : ∀ w ∈ ws, oneSided w.fields.opcode → ∀ t,
      tbl t w.fields.rkey = R.rkeyMrShm w.fields.rkey := by
    intro w hw hop t
    obtain ⟨e, hR, htbl⟩ := hrkeys w hw hop
    rw [hR, htbl]
  obtain ⟨call, hcall, hcallqp, hread⟩ :=
    channelPostSend_of_requestArea tbl stale B harea hne hfit hq hstable
  refine ⟨m', _, call, hrun, hcall, hcallqp, fun fuel hfuel => ?_⟩
  rw [hread fuel hfuel, decide_eq_false (by rw [htype]; exact hud)]
  simp only [translate_wireView]

/-! A list of three requests: a send with one element, an `RDMA_WRITE` with two and a send with
none. -/

/-- A client with one region, key `5` at `0x10000`. Kind: D -/
def sampleLib : Lib := ⟨7, fun k => if k = 5 then some ⟨0x10000, 0x70000⟩ else none⟩

/-- A router that knows an RC QP under handle `3`, a UD QP under handle `4`, the region and one
rkey. Kind: D -/
def sampleTables : Tables where
  qpMap h := if h = 3 then some ⟨0, .rc⟩ else if h = 4 then some ⟨1, .ud⟩ else none
  tokenbucket _ := some ⟨0, 1, 4000000⟩
  lkeyPtr k := if k = 5 then some 0x50000 else none
  rkeyMrShm k := if k = 9 then some ⟨0x20000, 0x80000⟩ else none
  ahMap h := 0x1000 * h.toUInt64

/-- The three requests. Kind: D -/
def sampleList : List SendWr :=
  [.ofParts WrOpcode.send.code 0 0 0 [⟨0x10010, 8, 5⟩] (by decide),
    .ofParts WrOpcode.rdmaWrite.code 0x20040 9 0 [⟨0x10020, 4, 5⟩, ⟨0x10030, 16, 5⟩] (by decide),
    .ofParts WrOpcode.send.code 0 0 0 [] (by decide)]

/-- A channel mapped at `0x7f0000000000`. Kind: D -/
def sampleChannel : Mapping ctrlReqSize := ⟨0x7f0000000000, by decide, by decide⟩

/-- The only one-sided request of the list uses the known rkey. Kind: L -/
lemma sampleList_rkeys : ∀ w ∈ sampleList, oneSided w.fields.opcode → ∃ e,
    sampleTables.rkeyMrShm w.fields.rkey = some e ∧
      ∀ _ : ℕ, sampleTables.rkeyMrShm w.fields.rkey = some e := by
  have hfound : ∀ w ∈ sampleList, oneSided w.fields.opcode →
      sampleTables.rkeyMrShm w.fields.rkey = some ⟨0x20000, 0x80000⟩ := by decide
  exact fun w hw hop => ⟨_, hfound w hw hop, fun _ => hfound w hw hop⟩

/-- The round trip on the three requests. Kind: C -/
theorem channelPostSend_delivers_sample :
    ∃ m' copies call,
      ibvCmdPostSend sampleLib ⟨3, .rc⟩ sampleList (fun _ => 0) = some (m', copies) ∧
      channelPostSend sampleTables (fun _ => sampleTables.rkeyMrShm) none sampleChannel m' =
        some call ∧ call.qp = ⟨0, .rc⟩ ∧
      ∀ fuel, sampleList.length ≤ fuel →
        posted sampleChannel call.mem fuel call.wr =
          some (sampleList.map (delivered sampleLib sampleTables)) :=
  channelPostSend_delivers sampleLib sampleTables (fun _ => sampleTables.rkeyMrShm) ⟨3, .rc⟩
    ⟨0, .rc⟩ none sampleChannel sampleList (fun _ => 0) (by decide) (by decide)
    ⟨by decide, rfl⟩ rfl (by decide) sampleList_rkeys (by decide)

/-! ## The same request through the socket -/

/-- The body of the request after it went through the socket: the client writes `body_size` bytes
from behind the header, the router reads them to the start of its own buffer.
Source: `freeflow.c` `request_router` (`IBV_POST_SEND`); `ffrouter.cpp` `HandleRequest`
Kind: D -/
def socketBody (m old : Mem) : Mem :=
  old.write 0 (m.read sizeofRequestHeader (m.u32 8).toNat)

/-- Byte `x` of the received body is byte `x` behind the header. Kind: L -/
lemma socketBody_apply {m : Mem} (old : Mem) {x : ℕ} (hx : x < (m.u32 8).toNat) :
    socketBody m old x = m (sizeofRequestHeader + x) := by
  unfold socketBody Mem.write
  rw [if_pos (by simpa using hx), Nat.sub_zero, List.getD_eq_getElem _ _ (by simpa using hx)]
  simp [Mem.read]

/-- A word of the received body. Kind: L -/
lemma socketBody_u32 {m : Mem} (old : Mem) {x : ℕ} (hx : x + 4 ≤ (m.u32 8).toNat) :
    (socketBody m old).u32 x = m.u32 (sizeofRequestHeader + x) := by
  refine Mem.u32_congr (Mem.read_congr_shift fun k hk => ?_)
  rw [socketBody_apply old (by omega), Nat.add_assoc]

/-- The tokens for a list of elements, taken one after the other. Kind: D -/
def takeTokens (clk : ℕ → UInt64) (fuel : ℕ) (st : Option TokenBucket × ℕ) (lens : List UInt32) :
    Option (Option TokenBucket × ℕ) :=
  lens.foldlM (payElement clk fuel) st

/-- The tokens of a list of elements with a first one. Kind: L -/
lemma takeTokens_cons (clk : ℕ → UInt64) (fuel : ℕ) (st : Option TokenBucket × ℕ) (len : UInt32)
    (lens : List UInt32) :
    takeTokens clk fuel st (len :: lens) =
      (payElement clk fuel st len).bind fun st' => takeTokens clk fuel st' lens :=
  List.foldlM_cons

/-- The tokens of two lists, one after the other. Kind: L -/
lemma takeTokens_append (clk : ℕ → UInt64) (fuel : ℕ) (st : Option TokenBucket × ℕ)
    (lens lens' : List UInt32) :
    takeTokens clk fuel st (lens ++ lens') =
      (takeTokens clk fuel st lens).bind fun st' => takeTokens clk fuel st' lens' :=
  List.foldlM_append

/-- The elements of one request on the socket path: they are translated exactly when their tokens
are admitted. Kind: L -/
lemma patchList_socket (R : Tables) (clk : ℕ → UInt64) (fuel : ℕ) (st : Option TokenBucket × ℕ)
    (es : List Sge) :
    patchList (socketDecoder R clk fuel).element st es =
      (takeTokens clk fuel st (es.map Sge.length)).map fun st' =>
        (st', es.map fun e => { e with addr := R.lkeyBase e.lkey + e.addr }) := by
  induction es generalizing st with
  | nil => rfl
  | cons e es ih =>
      rw [patchList, show (e :: es).map Sge.length = e.length :: es.map Sge.length from rfl,
        takeTokens_cons]
      rcases hpay : payElement clk fuel st e.length with _ | st'
      · simp [socketDecoder, hpay]
      · have helem : (socketDecoder R clk fuel).element st e =
            some (st', R.lkeyBase e.lkey + e.addr) := by
          simp [socketDecoder, hpay]
        simp only [helem, Option.bind_eq_bind, Option.bind_some, ih]
        cases takeTokens clk fuel st' (es.map Sge.length) <;> rfl

/-- **The socket path on lists**: it ends exactly when all tokens are admitted, and then every
request is translated with the handle it reads. Kind: L -/
lemma decodeList_socket (R : Tables) (clk : ℕ → UInt64) (fuel : ℕ) (ud : Bool) (os : List Posted)
    (hs : ℕ → UInt32) (st : Option TokenBucket × ℕ) :
    decodeList (socketDecoder R clk fuel) ud os hs () st =
      (takeTokens clk fuel st (os.flatMap fun o => o.sgList.map Sge.length)).map fun _ =>
        os.mapIdx fun k o => translate R ud (hs k) o := by
  induction os generalizing hs st with
  | nil => rfl
  | cons o os ih =>
      have hfields := translate_fields (socketDecoder R clk fuel) R ud (hs 0) o () rfl
        fun _ => rfl
      rw [decodeList, List.mapIdx_cons, List.flatMap_cons, takeTokens_append]
      simp only [patchList_socket, hfields, ih]
      rcases takeTokens clk fuel st (o.sgList.map Sge.length) with _ | st'
      · rfl
      · simp only [Option.map_some, Option.bind_eq_bind, Option.bind_some]
        generalize takeTokens clk fuel st' _ = tokens
        cases tokens <;> rfl

/-- The channel view keeps the lengths of the elements. Kind: L -/
lemma lengths_wireView (map : UInt32 → Option Client.MrShm) (ws : List SendWr) :
    ((ws.map (wireView map)).flatMap fun o => o.sgList.map Sge.length) =
      ws.flatMap fun w => w.sgList.map Sge.length := by
  simp [List.flatMap_map, wireView, offsetSge, Function.comp_def]

section SocketBody

variable {c : Lib} {qp : Client.Qp} {ws : List SendWr} {m : Mem} (harea : RequestArea c qp ws m)

include harea

/-- The arrays of requests and elements end inside the body, and so do the handles of a UD list.
Kind: L -/
lemma body_bounds :
    sizeofPostSend + sizeofSendWr * ws.length + sizeofSge * sgeTotal ws ≤ (m.u32 8).toNat ∧
      (qp.qpType = .ud → sizeofPostSend + sizeofSendWr * ws.length + sizeofSge * sgeTotal ws +
        4 * ws.length ≤ (m.u32 8).toNat) := by
  have hbody := harea.bodySize
  rw [encodedSize, ahOff, sgeOff, wrOff] at hbody
  refine ⟨by omega, fun hud => ?_⟩
  rw [if_pos hud] at hbody
  omega

/-- The channel holds header and body, so the body fits the buffer of the socket path. Kind: L -/
lemma body_fits (hfit : encodedSize qp ws ≤ ctrlReqSize) : (m.u32 8).toNat ≤ reqBodySize := by
  have hbody := harea.bodySize
  rw [ctrlReqSize] at hfit
  rw [sizeofRequestHeader] at hbody
  rw [reqBodySize]
  omega

/-- The words of `struct ibv_post_send`, as received. Kind: L -/
lemma socketBody_word (old : Mem) {x : ℕ} (hx : x + 4 ≤ sizeofPostSend) :
    (socketBody m old).u32 x = m.u32 (sizeofRequestHeader + x) := by
  have hsize := (body_bounds harea).1
  exact socketBody_u32 old (by omega)

/-- The received body holds the arrays of the encoder. Kind: L -/
lemma arrays_socketBody (old : Mem) :
    Arrays (socketBody m old) (ws.map (wireView c.mapLkeyToMrShm)) (0 + sizeofPostSend)
      (0 + sizeofPostSend + sizeofSendWr * ws.length) := by
  have hsize := (body_bounds harea).1
  refine Arrays.shift sizeofRequestHeader ?_ (fun x _ hx => socketBody_apply old ?_)
    (fun x _ hx => socketBody_apply old ?_)
  · have hsrc := arrays_of_encoded harea.encoded
    simpa [sgeOff, wrOff, Nat.add_assoc] using hsrc
  · rw [List.length_map] at hx
    omega
  · rw [elements_wireView] at hx
    omega

/-- Its `k`-th word behind the elements is the handle of the `k`-th request of a UD list.
Kind: L -/
lemma handle_socketBody (old : Mem) (hud : qp.qpType = .ud) {k : ℕ} (hk : k < ws.length) :
    (socketBody m old).u32 (0 + sizeofPostSend + sizeofSendWr * ws.length +
      sizeofSge * sgeTotal ws + 4 * k) = ws[k].ahHandle := by
  have hsize := (body_bounds harea).2 hud
  have henc := harea.encoded
  rw [decide_eq_true hud] at henc
  rw [socketBody_u32 old (by omega), ← handle_of_encoded henc hk, ahOff, sgeOff, wrOff]
  congr 1
  ring

end SocketBody

/-- The socket path on the body of the request the encoder leaves: it hands over a list exactly
when all tokens are admitted, and each request has its own handle. Kind: L -/
lemma socketPostSend_of_requestArea {c : Lib} {R : Tables} {qp : Client.Qp} {q : Router.Qp}
    {ws : List SendWr} {m : Mem} (old : Mem) (clk : ℕ → UInt64) (fuel : ℕ)
    (B : Mapping reqBodySize) (harea : RequestArea c qp ws m) (hne : ws ≠ [])
    (hfit : encodedSize qp ws ≤ ctrlReqSize) (hq : Registered R qp.handle q)
    (htype : q.qpType = qp.qpType) :
    match takeTokens clk fuel (R.tokenbucket qp.handle, 0)
      (ws.flatMap fun w => w.sgList.map Sge.length) with
    | none => socketPostSend R clk fuel B (socketBody m old) = none
    | some _ => ∃ call, socketPostSend R clk fuel B (socketBody m old) = some call ∧ call.qp = q ∧
        ∀ n, ws.length ≤ n → posted B call.mem n call.wr = some (ws.map fun w =>
          translate R (decide (q.qpType = .ud)) w.ahHandle (wireView c.mapLkeyToMrShm w)) := by
  have hsize := (body_bounds harea).1
  have hbuf := body_fits harea hfit
  have hspec := decodePostSend_spec (socketDecoder R clk fuel) B 0 q ()
    (R.tokenbucket qp.handle, 0) (socketBody m old)
    (ws.map (wireView c.mapLkeyToMrShm)) (by simpa using hne)
    (by rw [List.length_map, socketBody_word harea old (by decide)]; exact harea.wrCount)
    (by rw [elements_wireView, socketBody_word harea old (by decide)]; exact harea.sgeCount)
    (by rw [List.length_map]; exact arrays_socketBody harea old)
    (by rw [List.length_map, elements_wireView]; omega)
  have hcall : socketPostSend R clk fuel B (socketBody m old) =
      decodePostSend (socketDecoder R clk fuel) B 0 (some q) () (R.tokenbucket qp.handle, 0)
        (socketBody m old) := by
    have hhandle : (socketBody m old).u32 16 = qp.handle := by
      rw [socketBody_word harea old (by decide)]
      exact harea.qpHandle
    have hlt := hq.1
    rw [socketPostSend, hhandle, hq.resolveQp, resolveBucket, if_neg (by omega)]
  rw [decodeList_socket, lengths_wireView, ← hcall] at hspec
  revert hspec
  rcases takeTokens clk fuel (R.tokenbucket qp.handle, 0) _ with _ | st
  · exact fun hspec => hspec
  · rintro ⟨call, hrun, hcallqp, hread⟩
    refine ⟨call, hrun, hcallqp, fun n hn => ?_⟩
    rw [hread n (by simpa using hn), elements_wireView, List.length_map]
    refine congrArg some (List.ext_getElem (by simp) fun k hk hk' => ?_)
    rw [List.length_map] at hk'
    simp only [List.getElem_mapIdx, List.getElem_map]
    rw [translate_eq_iff, decide_eq_true_eq]
    intro hud
    -- the cursor has moved one word for each earlier request
    have hstride : (socketDecoder R clk fuel).ahStride * k = 4 * k := rfl
    rw [hstride, handle_socketBody harea old (htype ▸ hud) hk']

/-! ## Where the two paths agree -/

/-- What a call hands to `ibv_post_send`: the QP, and the list of at most `n` requests found by
following `next`. Kind: D -/
def handedOver {size : ℕ} (B : Mapping size) (n : ℕ) (call : PostCall) :
    Option (Router.Qp × List Posted) :=
  (posted B call.mem n call.wr).map fun out => (call.qp, out)

section Paths

variable {c : Lib} {R : Tables} {qp : Client.Qp} {q : Router.Qp} {ws : List SendWr} {m : Mem}
  (harea : RequestArea c qp ws m) (hne : ws ≠ []) (hfit : encodedSize qp ws ≤ ctrlReqSize)
  (hq : Registered R qp.handle q) (htype : q.qpType = qp.qpType)

include harea hne hfit hq

/-- What the channel path hands over, for a table that stays: every request has the first
request's handle. Kind: L -/
lemma channel_handedOver (stale : Option Router.Qp) (B : Mapping ctrlReqSize) :
    (channelPostSend R (fun _ => R.rkeyMrShm) stale B m).bind (handedOver B ws.length) =
      some (q, ws.map fun w => translate R (decide (q.qpType = .ud))
        (m.u32 (ahOff ws.length (sgeTotal ws))) (wireView c.mapLkeyToMrShm w)) := by
  obtain ⟨call, hcall, hcallqp, hread⟩ := channelPostSend_of_requestArea
    (fun _ => R.rkeyMrShm) stale B harea hne hfit hq fun _ _ _ _ => rfl
  rw [hcall, Option.bind_some, handedOver, hread _ le_rfl, hcallqp]
  rfl

include htype

/-- What the socket path hands over: every request has its own handle; nothing is handed over
when the tokens are not admitted. Kind: L -/
lemma socket_handedOver (old : Mem) (clk : ℕ → UInt64) (fuel : ℕ) (B : Mapping reqBodySize) :
    (socketPostSend R clk fuel B (socketBody m old)).bind (handedOver B ws.length) =
      (takeTokens clk fuel (R.tokenbucket qp.handle, 0)
        (ws.flatMap fun w => w.sgList.map Sge.length)).map fun _ =>
        (q, ws.map fun w => translate R (decide (q.qpType = .ud)) w.ahHandle
          (wireView c.mapLkeyToMrShm w)) := by
  have hspec := socketPostSend_of_requestArea old clk fuel B harea hne hfit hq htype
  revert hspec
  rcases takeTokens clk fuel (R.tokenbucket qp.handle, 0) _ with _ | st
  · intro hnone
    rw [hnone]
    rfl
  · rintro ⟨call, hcall, hcallqp, hread⟩
    rw [hcall, Option.bind_some, handedOver, hread _ le_rfl, hcallqp]
    rfl

end Paths

/-- **The two paths agree exactly when** all handles of a UD list lead to the first one's entry of
`ah_map` and the QP's token bucket admits every element in turn: for every QP known to the router,
every non-empty list with known lkeys that fits the channel, every state of the tables, every
clock, wherever the two buffers lie and whatever they held.
Source: `ffrouter.cpp` `CtrlChannelLoop`, `HandleRequest` (`IBV_POST_SEND`)
Kind: P -/
theorem channel_eq_socket_iff (c : Lib) (R : Tables) (qp : Client.Qp) (q : Router.Qp)
    (stale : Option Router.Qp) (B : Mapping ctrlReqSize) (B' : Mapping reqBodySize)
    (clk : ℕ → UInt64) (ws : List SendWr) (m old : Mem) (hne : ws ≠ [])
    (hq : Registered R qp.handle q) (htype : q.qpType = qp.qpType)
    (hlkeys : ∀ w ∈ ws, ∀ e ∈ w.sgList, (c.mapLkeyToMrShm e.lkey).isSome)
    (hfit : encodedSize qp ws ≤ ctrlReqSize) :
    ∃ m' copies, ibvCmdPostSend c qp ws m = some (m', copies) ∧
      ((∃ fuel out,
          (socketPostSend R clk fuel B' (socketBody m' old)).bind (handedOver B' ws.length) =
            some out ∧
          (channelPostSend R (fun _ => R.rkeyMrShm) stale B m').bind (handedOver B ws.length) =
            some out) ↔
        (qp.qpType = .ud → ∀ w ∈ ws, R.ahMap (ws.head hne).ahHandle = R.ahMap w.ahHandle) ∧
        ∃ fuel, (takeTokens clk fuel (R.tokenbucket qp.handle, 0)
          (ws.flatMap fun w => w.sgList.map Sge.length)).isSome) := by
  obtain ⟨m', hrun, harea, -⟩ := ibvCmdPostSend_requestArea c qp ws m hlkeys hfit
  refine ⟨m', _, hrun, ?_⟩
  have hfirst : qp.qpType = .ud → m'.u32 (ahOff ws.length (sgeTotal ws)) =
      (ws.head hne).ahHandle := by
    intro hud
    have henc := harea.encoded
    rw [decide_eq_true hud] at henc
    rw [List.head_eq_getElem hne]
    exact handle_of_encoded henc (k := 0) (List.length_pos_iff.mpr hne)
  -- the lists agree request by request, and there only the handles can differ
  have hlists : (ws.map fun w => translate R (decide (q.qpType = .ud)) w.ahHandle
        (wireView c.mapLkeyToMrShm w)) = (ws.map fun w =>
        translate R (decide (q.qpType = .ud)) (m'.u32 (ahOff ws.length (sgeTotal ws)))
          (wireView c.mapLkeyToMrShm w)) ↔
      (qp.qpType = .ud → ∀ w ∈ ws, R.ahMap (ws.head hne).ahHandle = R.ahMap w.ahHandle) := by
    simp only [List.map_inj_left, translate_eq_iff, decide_eq_true_eq, htype]
    constructor
    · intro h hud w hw
      rw [← hfirst hud, h w hw hud]
    · intro h w hw hud
      rw [hfirst hud, h hud w hw]
  simp only [socket_handedOver harea hne hfit hq htype, channel_handedOver harea hne hfit hq]
  constructor
  · rintro ⟨fuel, out, hsocket, hchannel⟩
    rw [Option.map_eq_some_iff] at hsocket
    obtain ⟨st, htokens, hout⟩ := hsocket
    have heq := hout.trans (Option.some.inj hchannel).symm
    rw [Prod.mk.injEq] at heq
    exact ⟨hlists.mp heq.2, fuel, by rw [htokens]; rfl⟩
  · rintro ⟨hhandles, fuel, htokens⟩
    obtain ⟨st, hst⟩ := Option.isSome_iff_exists.mp htokens
    refine ⟨fuel, _, ?_, rfl⟩
    rw [hst, Option.map_some, hlists.mpr hhandles]

/-- A socket buffer at `0x7e0000000000`. Kind: D -/
def sampleBuffer : Mapping reqBodySize := ⟨0x7e0000000000, by decide, by decide⟩

/-- The three requests on the RC QP, one second after boot: both paths hand over the same list.
Kind: C -/
theorem channel_eq_socket_sample :
    ∃ m' copies, ibvCmdPostSend sampleLib ⟨3, .rc⟩ sampleList (fun _ => 0) = some (m', copies) ∧
      ∃ fuel out,
        (socketPostSend sampleTables (fun _ => 5000000000) fuel sampleBuffer
          (socketBody m' fun _ => 0)).bind (handedOver sampleBuffer 3) = some out ∧
        (channelPostSend sampleTables (fun _ => sampleTables.rkeyMrShm) none sampleChannel m').bind
          (handedOver sampleChannel 3) = some out := by
  obtain ⟨m', copies, hrun, hiff⟩ := channel_eq_socket_iff sampleLib sampleTables ⟨3, .rc⟩
    ⟨0, .rc⟩ none sampleChannel sampleBuffer (fun _ => 5000000000) sampleList (fun _ => 0)
    (fun _ => 0) (by decide) ⟨by decide, rfl⟩ rfl (by decide) (by decide)
  exact ⟨m', copies, hrun, hiff.mpr ⟨fun hud => absurd hud (by decide), 1, by decide⟩⟩

/-- Two sends on a UD QP with different address handles. Kind: D -/
def sampleUdList : List SendWr :=
  [.ofParts WrOpcode.send.code 0 0 1 [⟨0x10010, 8, 5⟩] (by decide),
    .ofParts WrOpcode.send.code 0 0 2 [⟨0x10020, 8, 5⟩] (by decide)]

/-- **Two datagrams to two destinations**: the socket path hands over a list, and the channel path
hands over another one, because its second request carries the first one's address handle.
Kind: C -/
theorem channel_ne_socket_ud_sample :
    ∃ m' copies, ibvCmdPostSend sampleLib ⟨4, .ud⟩ sampleUdList (fun _ => 0) = some (m', copies) ∧
      ((socketPostSend sampleTables (fun _ => 5000000000) 1 sampleBuffer
        (socketBody m' fun _ => 0)).bind (handedOver sampleBuffer 2)).isSome ∧
      ∀ fuel, (socketPostSend sampleTables (fun _ => 5000000000) fuel sampleBuffer
          (socketBody m' fun _ => 0)).bind (handedOver sampleBuffer 2) ≠
        (channelPostSend sampleTables (fun _ => sampleTables.rkeyMrShm) none sampleChannel m').bind
          (handedOver sampleChannel 2) := by
  have hq : Registered sampleTables 4 ⟨1, .ud⟩ := ⟨by decide, rfl⟩
  obtain ⟨m', hrun, harea, -⟩ := ibvCmdPostSend_requestArea sampleLib ⟨4, .ud⟩
    sampleUdList (fun _ => 0) (by decide) (by decide)
  have hfirst : m'.u32 (ahOff sampleUdList.length (sgeTotal sampleUdList)) = 1 :=
    handle_of_encoded harea.encoded (k := 0) (by decide)
  have hsocket := fun fuel => socket_handedOver harea (by decide) (by decide) hq rfl (fun _ => 0)
    (fun _ => 5000000000) fuel sampleBuffer
  have hchannel := channel_handedOver harea (by decide) (by decide) hq none sampleChannel
  refine ⟨m', _, hrun, ?_, fun fuel hsame => ?_⟩
  · exact (congrArg Option.isSome (hsocket 1)).trans (by decide)
  · have heq := (hsocket fuel).symm.trans (hsame.trans hchannel)
    obtain ⟨st, -, hout⟩ := Option.map_eq_some_iff.mp heq
    rw [Prod.mk.injEq, hfirst, List.map_inj_left] at hout
    have hsecond := hout.2 (sampleUdList.get ⟨1, by decide⟩) (List.get_mem _ _)
    rw [translate_eq_iff] at hsecond
    exact absurd (hsecond rfl) (by decide)

end FreeFlow.Wire
