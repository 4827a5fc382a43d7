import FreeFlow.Found.ByteMem
import FreeFlow.Found.DecimalText
import FreeFlow.Verbs.Messages

/-!
# Virtual IP addresses

Containers have virtual IPv4 addresses, which the host network does not know. Before the router
passes an rdmacm request with socket addresses on, it replaces a virtual address by that of its
host: `map_vip` writes the four bytes at a pointer as text, looks the text up in `vip_map` and reads
the text it finds back into the same four bytes.

Which four bytes that are is decided by `get_in_addr`, which distinguishes IPv4 and everything else;
`CM_BIND_IP` takes the place of an IPv4 address in any case. `map_vip` itself does not ask for the
family. So four bytes of an IPv6 address, or of its flow label, are taken for an IPv4 address.

* `CmRequest`, `CmRequest.addrs` — the four requests and where their addresses lie.
* `getInAddr`, `mapVip`, `CmRequest.mapVips` — what the router does to a request.
* `RewritesOnly` — virtual IPv4 addresses become host addresses, and no other byte changes.
* `mapVips_spec` — what becomes of every byte of a request.
* `rewritesOnly_iff` — for every map and every request: it is so exactly when the map has addresses
  for the virtual addresses of the request, and no other for the bytes that are not one.
* `rewritesOnly_of_ipv4` — so with the map of the router IPv4 addresses are always right.

Source: `ffrouter.cpp` `get_in_addr`, `FreeFlowRouter::map_vip`, `HandleRequest` (`CM_BIND_IP`,
`CM_BIND`, `CM_RESOLVE_IP`, `CM_RESOLVE_ADDR`); `types.h`, `rdma_cma_abi.h`.
-/

namespace FreeFlow.Router.Vip

open FreeFlow.Found FreeFlow.Verbs

/-! ## Requests with socket addresses -/

/-- The requests whose addresses are mapped. Kind: D -/
inductive CmRequest
  | bindIp
  | bind
  | resolveIp
  | resolveAddr
  deriving DecidableEq, Repr

namespace CmRequest

/-- The request type. Kind: D -/
def func : CmRequest → RdmaFunctionCall
  | bindIp => .cmBindIp
  | bind => .cmBind
  | resolveIp => .cmResolveIp
  | resolveAddr => .cmResolveAddr

/-- Where the socket addresses of a request are: `cmd.addr`, or `cmd.src_addr` and `cmd.dst_addr`.
In `CM_BIND_IP_REQ`, `CM_BIND_REQ` and `CM_RESOLVE_ADDR_REQ` the command is aligned to 8 bytes.
Source: `types.h`, `rdma_cma_abi.h`
Kind: D -/
def addrs : CmRequest → List ℕ
  | bindIp => [8 + 16]
  | bind => [8 + 16]
  | resolveIp => [4 + 8, 4 + 8 + 28]
  | resolveAddr => [8 + 24, 8 + 24 + 128]

end CmRequest

/-- `AF_INET`. Kind: D -/
def afInet : ℕ := 2

/-- `AF_INET6`. Kind: D -/
def afInet6 : ℕ := 10

/-- `sa->sa_family`, 16 bits at the start of every socket address. Kind: D -/
def saFamily (m : Mem) (sa : ℕ) : ℕ := Mem.ofLE (m.read sa 2)

/-- `get_in_addr`: `sin_addr` is at offset 4, `sin6_addr` at offset 8. Source: `ffrouter.cpp`.
Kind: D -/
def getInAddr (m : Mem) (sa : ℕ) : ℕ := if saFamily m sa = afInet then sa + 4 else sa + 8

/-! ## The map -/

/-- `vip_map`. Source: `ffrouter.h`. Kind: D -/
abbrev VipMap := String → Option String

/-- The map the router starts with. Source: `ffrouter.cpp` `FreeFlowRouter::FreeFlowRouter`.
Kind: D -/
def vipMap : VipMap := fun vip =>
  [("10.47.0.4", "192.168.2.13"), ("10.47.0.6", "192.168.2.13"), ("10.47.0.7", "192.168.2.13"),
    ("10.47.0.8", "192.168.2.13"), ("10.44.0.3", "192.168.2.15"), ("10.44.0.4", "192.168.2.15"),
    ("10.44.0.6", "192.168.2.15")].lookup vip

/-- The characters of `s.c_str()`. Kind: D -/
def cStr (s : String) : List Char := s.toList.takeWhile (· ≠ '\x00')

/-- The four bytes at `a`. Kind: D -/
def inAddrAt (m : Mem) (a : ℕ) : InAddr := ⟨m a, m (a + 1), m (a + 2), m (a + 3)⟩

/-- `map_vip(addr)`. `inet_pton` stores nothing when the text is not an address.
Source: `ffrouter.cpp`
Kind: D -/
def mapVip (vips : VipMap) (m : Mem) (addr : ℕ) : Mem :=
  match vips (inAddrAt m addr).ntop with
  | none => m
  | some dip =>
      match InAddr.pton (cStr dip) with
      | none => m
      | some x => m.write addr x.bytes

/-- The calls of `map_vip` for a request, which is at address 0. Source: `ffrouter.cpp`
`HandleRequest`. Kind: D -/
def CmRequest.mapVips (vips : VipMap) (m : Mem) : CmRequest → Mem
  -- `&((struct sockaddr_in *)addr_str)->sin_addr`
  | bindIp => mapVip vips m (8 + 16 + 4)
  | bind => mapVip vips m (getInAddr m (8 + 16))
  | resolveIp =>
      let m := mapVip vips m (getInAddr m (4 + 8))
      mapVip vips m (getInAddr m (4 + 8 + 28))
  | resolveAddr =>
      let m := mapVip vips m (getInAddr m (8 + 24))
      mapVip vips m (getInAddr m (8 + 24 + 128))

/-! ## What the mapping is for -/

/-- The socket address is an IPv4 address and a key of the map. Kind: D -/
def Virtual (vips : VipMap) (m : Mem) (sa : ℕ) : Prop :=
  saFamily m sa = afInet ∧ (vips (inAddrAt m (sa + 4)).ntop).isSome = true

/-- **The purpose**: an IPv4 address that is a key of the map becomes the host address the map has
for it, and every byte that is not in such an address stays as it is. Kind: D -/
structure RewritesOnly (vips : VipMap) (sas : List ℕ) (m m' : Mem) : Prop where
  host : ∀ sa ∈ sas, saFamily m sa = afInet → ∀ dip, vips (inAddrAt m (sa + 4)).ntop = some dip →
    cStr dip = (inAddrAt m' (sa + 4)).ntop.toList
  frame : ∀ x, (∀ sa ∈ sas, Virtual vips m sa → x < sa + 4 ∨ sa + 8 ≤ x) → m' x = m x

/-- The four bytes that a request's handler takes for the IPv4 address of the socket address.
Kind: D -/
def CmRequest.place (m : Mem) (sa : ℕ) : CmRequest → ℕ
  | bindIp => sa + 4
  | bind | resolveIp | resolveAddr => getInAddr m sa

/-- The map has no other address for the four bytes. Kind: D -/
def Spared (vips : VipMap) (x : InAddr) : Prop :=
  ∀ dip y, vips x.ntop = some dip → cStr dip = y.ntop.toList → y = x

/-! ## What happens to the bytes -/

/-- What `map_vip` makes of four bytes. Kind: D -/
def hostOf (vips : VipMap) (x : InAddr) : InAddr :=
  ((vips x.ntop).bind fun dip => InAddr.pton (cStr dip)).getD x

/-- The host address of a key. Kind: L -/
lemma hostOf_of_key {vips : VipMap} {x y : InAddr} {dip : String} (hkey : vips x.ntop = some dip)
    (htext : cStr dip = y.ntop.toList) : hostOf vips x = y := by
  rw [hostOf, hkey, Option.bind_some, InAddr.pton_eq_some_iff.mpr htext, Option.getD_some]

/-- Bytes that are not a key stay. Kind: L -/
lemma hostOf_of_none {vips : VipMap} {x : InAddr} (h : vips x.ntop = none) : hostOf vips x = x := by
  rw [hostOf, h, Option.bind_none, Option.getD_none]

/-- Bytes stay exactly when they are spared. Kind: L -/
lemma hostOf_eq_self_iff {vips : VipMap} {x : InAddr} : hostOf vips x = x ↔ Spared vips x := by
  constructor
  · intro h dip y hkey htext
    rw [← h, hostOf_of_key hkey htext]
  · intro h
    rcases hkey : vips x.ntop with _ | dip
    · exact hostOf_of_none hkey
    · rcases hread : InAddr.pton (cStr dip) with _ | y
      · rw [hostOf, hkey, Option.bind_some, hread, Option.getD_none]
      · have htext := InAddr.pton_eq_some_iff.mp hread
        rw [hostOf_of_key hkey htext]
        exact h dip y hkey htext

/-- The four bytes at `a`, one by one. Kind: L -/
lemma inAddrAt_eq_iff {m m' : Mem} {a : ℕ} :
    inAddrAt m' a = inAddrAt m a ↔ ∀ x, a ≤ x → x < a + 4 → m' x = m x := by
  constructor
  · intro h x hlo hhi
    obtain ⟨h0, h1, h2, h3⟩ := InAddr.ext_iff.mp h
    obtain rfl | rfl | rfl | rfl : x = a ∨ x = a + 1 ∨ x = a + 2 ∨ x = a + 3 := by omega
    · exact h0
    · exact h1
    · exact h2
    · exact h3
  · intro h
    exact InAddr.ext (h a (by omega) (by omega)) (h _ (by omega) (by omega))
      (h _ (by omega) (by omega)) (h _ (by omega) (by omega))

/-- Four bytes that were written. Kind: L -/
lemma inAddrAt_write (m : Mem) (a : ℕ) (x : InAddr) : inAddrAt (m.write a x.bytes) a = x := by
  have hbyte : ∀ i < 4, m.write a x.bytes (a + i) = x.bytes.getD i 0 := by
    intro i hi
    have hin : a ≤ a + i ∧ a + i < a + x.bytes.length := ⟨by omega, by simpa [InAddr.bytes]⟩
    rw [Mem.write, if_pos hin, Nat.add_sub_cancel_left]
  exact InAddr.ext (hbyte 0 (by norm_num)) (hbyte 1 (by norm_num)) (hbyte 2 (by norm_num))
    (hbyte 3 (by norm_num))

/-- **One call of `map_vip`**: the four bytes become their host address, and no others change.
Kind: P -/
lemma mapVip_spec (vips : VipMap) (m : Mem) (a : ℕ) :
    inAddrAt (mapVip vips m a) a = hostOf vips (inAddrAt m a) ∧
      ∀ x, x < a ∨ a + 4 ≤ x → mapVip vips m a x = m x := by
  rcases hkey : vips (inAddrAt m a).ntop with _ | dip
  · have hsame : mapVip vips m a = m := by simp only [mapVip, hkey]
    rw [hsame, hostOf_of_none hkey]
    exact ⟨rfl, fun _ _ => rfl⟩
  · rcases hread : InAddr.pton (cStr dip) with _ | y
    · have hsame : mapVip vips m a = m := by simp only [mapVip, hkey, hread]
      rw [hsame, hostOf, hkey, Option.bind_some, hread, Option.getD_none]
      exact ⟨rfl, fun _ _ => rfl⟩
    · have hwrite : mapVip vips m a = m.write a y.bytes := by simp only [mapVip, hkey, hread]
      rw [hwrite, inAddrAt_write, hostOf_of_key hkey (InAddr.pton_eq_some_iff.mp hread)]
      exact ⟨rfl, fun x hx => Mem.write_apply_of_outside (by simpa [InAddr.bytes] using hx)⟩

/-- The family of a socket address whose first two bytes are the same. Kind: L -/
lemma getInAddr_congr {m m' : Mem} {sa : ℕ} (h : ∀ x, sa ≤ x → x < sa + 2 → m' x = m x) :
    getInAddr m' sa = getInAddr m sa := by
  unfold getInAddr saFamily
  rw [Mem.read_congr h]

/-- The four bytes are in the socket address, behind its family. Kind: L -/
lemma getInAddr_mem (m : Mem) (sa : ℕ) : sa + 4 ≤ getInAddr m sa ∧ getInAddr m sa ≤ sa + 8 := by
  unfold getInAddr
  split <;> omega

/-- The four bytes at every place become their host address, and no others change. Kind: D -/
structure Mapped (vips : VipMap) (place : ℕ → ℕ) (sas : List ℕ) (m m' : Mem) : Prop where
  at_place : ∀ sa ∈ sas, inAddrAt m' (place sa) = hostOf vips (inAddrAt m (place sa))
  outside : ∀ x, (∀ sa ∈ sas, x < place sa ∨ place sa + 4 ≤ x) → m' x = m x

/-- One address. Kind: L -/
lemma mapped_one (vips : VipMap) (m : Mem) (place : ℕ → ℕ) (sa : ℕ) :
    Mapped vips place [sa] m (mapVip vips m (place sa)) := by
  obtain ⟨hat, hout⟩ := mapVip_spec vips m (place sa)
  exact ⟨by simpa using hat, fun x hx => hout x (hx sa (by simp))⟩

/-- Source and destination, which are apart: the family of the second is read when the first has
been mapped. Kind: L -/
lemma mapped_two (vips : VipMap) (m : Mem) {sa sb : ℕ} (hapart : sa + 12 ≤ sb) :
    Mapped vips (getInAddr m) [sa, sb] m
      (mapVip vips (mapVip vips m (getInAddr m sa))
        (getInAddr (mapVip vips m (getInAddr m sa)) sb)) := by
  obtain ⟨hat, hout⟩ := mapVip_spec vips m (getInAddr m sa)
  have hsa := getInAddr_mem m sa
  have hsb := getInAddr_mem m sb
  have hfamily : getInAddr (mapVip vips m (getInAddr m sa)) sb = getInAddr m sb :=
    getInAddr_congr fun x hlo _ => hout x (.inr (by omega))
  rw [hfamily]
  obtain ⟨hat', hout'⟩ := mapVip_spec vips (mapVip vips m (getInAddr m sa)) (getInAddr m sb)
  constructor
  · simp only [List.mem_cons, List.not_mem_nil, or_false, forall_eq_or_imp, forall_eq]
    constructor
    · rw [← hat]
      exact inAddrAt_eq_iff.mpr fun x _ hhi => hout' x (.inl (by omega))
    · rw [hat', inAddrAt_eq_iff.mpr fun x hlo _ => hout x (.inr (by omega))]
  · intro x hx
    rw [hout' x (hx sb (by simp)), hout x (hx sa (by simp))]

/-- **The calls for a request.** Kind: P -/
theorem mapVips_spec (vips : VipMap) (m : Mem) (r : CmRequest) :
    Mapped vips (fun sa => r.place m sa) r.addrs m (r.mapVips vips m) := by
  cases r with
  | bindIp => exact mapped_one vips m (fun sa => sa + 4) _
  | bind => exact mapped_one vips m (getInAddr m) _
  | resolveIp => exact mapped_two vips m (by norm_num)
  | resolveAddr => exact mapped_two vips m (by norm_num)

/-! ## Virtual addresses and other bytes -/

/-- An IPv4 address is where every handler takes it from. Kind: L -/
lemma place_of_inet {m : Mem} {sa : ℕ} (h : saFamily m sa = afInet) (r : CmRequest) :
    r.place m sa = sa + 4 := by
  cases r with
  | bindIp => rfl
  | bind | resolveIp | resolveAddr => exact if_pos h

/-- The four bytes are in the socket address, behind its family. Kind: L -/
lemma place_mem (m : Mem) (sa : ℕ) (r : CmRequest) :
    sa + 4 ≤ r.place m sa ∧ r.place m sa ≤ sa + 8 := by
  cases r with
  | bindIp => exact ⟨le_rfl, by simp [CmRequest.place]⟩
  | bind | resolveIp | resolveAddr => exact getInAddr_mem m sa

/-- The socket addresses of a request do not overlap. Kind: L -/
lemma addrs_apart {r : CmRequest} {sa sb : ℕ} (ha : sa ∈ r.addrs) (hb : sb ∈ r.addrs)
    (hne : sa ≠ sb) : sa + 12 ≤ sb ∨ sb + 12 ≤ sa := by
  cases r <;> simp only [CmRequest.addrs, List.mem_cons, List.not_mem_nil, or_false] at ha hb <;>
    omega

/-- They are parts of the request, with the four bytes. Kind: L -/
lemma addrs_le {r : CmRequest} {sa : ℕ} (h : sa ∈ r.addrs) : sa + 28 ≤ reqSize r.func := by
  cases r <;> simp only [CmRequest.addrs, List.mem_cons, List.not_mem_nil, or_false] at h <;>
    simp only [CmRequest.func, reqSize] <;> omega

/-- **Nothing behind the request** is written. Kind: P -/
theorem mapVips_of_le {vips : VipMap} {m : Mem} {r : CmRequest} {x : ℕ}
    (h : reqSize r.func ≤ x) : r.mapVips vips m x = m x := by
  refine (mapVips_spec vips m r).outside x fun sa hsa => ?_
  have hsize := addrs_le hsa
  have hplace := place_mem m sa r
  omega

/-- The map has the text of an address for every virtual address of the request, and it spares the
bytes that are taken from the other socket addresses, IPv6 or absent. Kind: D -/
def CmRequest.Proper (vips : VipMap) (m : Mem) (r : CmRequest) : Prop :=
  ∀ sa ∈ r.addrs,
    (saFamily m sa = afInet → ∀ dip, vips (inAddrAt m (sa + 4)).ntop = some dip →
      ∃ y : InAddr, cStr dip = y.ntop.toList) ∧
    (saFamily m sa ≠ afInet → Spared vips (inAddrAt m (r.place m sa)))

/-- Then the rewriting is what it is for. Kind: L -/
lemma rewritesOnly_of_proper {vips : VipMap} {m : Mem} {r : CmRequest} (h : r.Proper vips m) :
    RewritesOnly vips r.addrs m (r.mapVips vips m) := by
  have hmapped := mapVips_spec vips m r
  constructor
  · intro sa hsa hfam dip hdip
    obtain ⟨y, hy⟩ := (h sa hsa).1 hfam dip hdip
    have hat := hmapped.at_place sa hsa
    rw [place_of_inet hfam, hostOf_of_key hdip hy] at hat
    rw [hat, hy]
  · intro x hx
    by_cases hin : ∃ sa ∈ r.addrs, r.place m sa ≤ x ∧ x < r.place m sa + 4
    · obtain ⟨sa, hsa, hlo, hhi⟩ := hin
      have hself : hostOf vips (inAddrAt m (r.place m sa)) = inAddrAt m (r.place m sa) := by
        by_cases hfam : saFamily m sa = afInet
        · -- the byte is in an IPv4 address, which is not a virtual one
          rw [place_of_inet hfam] at hlo hhi ⊢
          apply hostOf_of_none
          by_contra hsome
          have hvirtual : Virtual vips m sa := ⟨hfam, Option.isSome_iff_ne_none.mpr hsome⟩
          rcases hx sa hsa hvirtual with hlt | hle <;> omega
        · exact hostOf_eq_self_iff.mpr ((h sa hsa).2 hfam)
      exact inAddrAt_eq_iff.mp ((hmapped.at_place sa hsa).trans hself) x hlo hhi
    · refine hmapped.outside x fun sa hsa => ?_
      by_contra hboth
      exact hin ⟨sa, hsa, by omega, by omega⟩

/-- **Virtual-IP rewriting**: for every map, every one of the four requests and all bytes of it, the
rewriting is confined to virtual IPv4 addresses, and gives them their host addresses, exactly when
map and request are proper. Kind: C -/
theorem rewritesOnly_iff (vips : VipMap) (m : Mem) (r : CmRequest) :
    RewritesOnly vips r.addrs m (r.mapVips vips m) ↔ r.Proper vips m := by
  refine ⟨fun h sa hsa => ?_, rewritesOnly_of_proper⟩
  refine ⟨fun hfam dip hdip => ⟨_, h.host sa hsa hfam dip hdip⟩, fun hfam => ?_⟩
  rw [← hostOf_eq_self_iff, ← (mapVips_spec vips m r).at_place sa hsa, inAddrAt_eq_iff]
  intro x hlo hhi
  refine h.frame x fun sb hsb hvirtual => ?_
  -- a virtual address is another one, and lies elsewhere
  have hne : sa ≠ sb := fun heq => hfam (heq ▸ hvirtual.1)
  have hapart := addrs_apart hsa hsb hne
  have hplace := place_mem m sa r
  omega

/-- The addresses of the router's map are addresses. Kind: L -/
lemma vipMap_text {vip dip : String} (h : vipMap vip = some dip) :
    ∃ y : InAddr, cStr dip = y.ntop.toList := by
  have hmem : dip = "192.168.2.13" ∨ dip = "192.168.2.15" := by
    obtain ⟨before, after, hentries, -⟩ := List.lookup_eq_some_iff.mp h
    have hvalue : dip ∈ (before ++ (vip, dip) :: after).map Prod.snd := by simp
    rw [← hentries] at hvalue
    simpa using hvalue
  rcases hmem with rfl | rfl
  · exact ⟨⟨192, 168, 2, 13⟩, by decide +kernel⟩
  · exact ⟨⟨192, 168, 2, 15⟩, by decide +kernel⟩

/-- **IPv4 addresses** are mapped as they should be by the router as it is. Kind: P -/
theorem rewritesOnly_of_ipv4 (m : Mem) (r : CmRequest)
    (h : ∀ sa ∈ r.addrs, saFamily m sa = afInet) :
    RewritesOnly vipMap r.addrs m (r.mapVips vipMap m) :=
  rewritesOnly_of_proper fun sa hsa =>
    ⟨fun _ _ hdip => vipMap_text hdip, fun hne => absurd (h sa hsa) hne⟩

/-- A request with the IPv6 address 0a2f:0004:: and the flow information 0x0a2f0004 at `sa`.
Kind: D -/
def sampleRequest (sa : ℕ) : Mem :=
  Mem.write (fun _ => 0) sa [10, 0, 0, 0, 10, 47, 0, 4, 10, 47, 0, 4]

/-- **An IPv6 address is changed**: with the map of the router the first four bytes of 0a2f:0004::
become 192.168.2.13 in a `CM_BIND` request, and so does the flow information in a `CM_BIND_IP`
request. Kind: C -/
theorem rewrites_ipv6 :
    saFamily (sampleRequest 24) 24 = afInet6 ∧
      ¬ RewritesOnly vipMap CmRequest.bind.addrs (sampleRequest 24)
        (CmRequest.bind.mapVips vipMap (sampleRequest 24)) ∧
      ¬ RewritesOnly vipMap CmRequest.bindIp.addrs (sampleRequest 24)
        (CmRequest.bindIp.mapVips vipMap (sampleRequest 24)) := by
  have hfamily : saFamily (sampleRequest 24) 24 = afInet6 := by decide +kernel
  have hhost : hostOf vipMap ⟨10, 47, 0, 4⟩ = ⟨192, 168, 2, 13⟩ := by decide +kernel
  have hchanged : ∀ r : CmRequest, r.addrs = [24] →
      inAddrAt (sampleRequest 24) (r.place (sampleRequest 24) 24) = ⟨10, 47, 0, 4⟩ →
      ¬ RewritesOnly vipMap r.addrs (sampleRequest 24) (r.mapVips vipMap (sampleRequest 24)) := by
    intro r haddrs hbytes h
    have hat := (mapVips_spec vipMap (sampleRequest 24) r).at_place 24 (by simp [haddrs])
    -- the request has no virtual address, so that no byte may change
    have hsame := inAddrAt_eq_iff.mpr fun x (_ : r.place (sampleRequest 24) 24 ≤ x) _ =>
      h.frame x fun sa hsa hvirtual => by
        rw [haddrs, List.mem_singleton] at hsa
        rw [hsa] at hvirtual
        exact absurd (hfamily.symm.trans hvirtual.1) (by decide)
    rw [hat, hbytes, hhost] at hsame
    exact absurd hsame (by decide)
  exact ⟨hfamily, hchanged .bind rfl (by decide +kernel), hchanged .bindIp rfl (by decide +kernel)⟩

end FreeFlow.Router.Vip
