import TptTelemetry.Lib.Net
import TptTelemetry.Lib.Utf8

namespace TptTelemetry.Server.Sockaddr

open TptTelemetry.Lib.Text TptTelemetry.Lib.Net TptTelemetry.Lib.Utf8

def sockaddrAfInet : UInt8 := 2

def sockaddrAfInet6 : UInt8 := 10

def index (buf : Bytes) (i : Nat) : Except Panic UInt8 :=
  match buf[i]? with
  | some b => .ok b
  | none => .error .seqIndex

def slice (buf : Bytes) (start stop : Nat) : Except Panic Bytes :=
  if start ≤ stop ∧ stop ≤ buf.length then .ok ((buf.take stop).drop start) else .error .seqIndex

/-- `copy_from_slice` into an array of `n` bytes, which must be as long as the slice. -/
def copyFromSlice (n : Nat) (src : Bytes) : Except Panic { oct : Bytes // oct.length = n } :=
  if h : src.length = n then .ok ⟨src, h⟩ else .error .seqIndex

def decodeSockaddr (family : UInt8) (buf : Bytes) : Except Panic (Option SocketAddr) :=
  if family = sockaddrAfInet then
    -- sockaddr_in: the port at 2..4, the address at 4..8
    if buf.length < 8 then .ok none
    else do
      let port := fromBeBytes (← index buf 2) (← index buf 3)
      let ip := ⟨← index buf 4, ← index buf 5, ← index buf 6, ← index buf 7⟩
      .ok (some (.ofIp port (.v4 ip)))
  else if family = sockaddrAfInet6 then
    -- sockaddr_in6: the port at 2..4, the address at 8..24
    if buf.length < 24 then .ok none
    else do
      let port := fromBeBytes (← index buf 2) (← index buf 3)
      let oct ← copyFromSlice 16 (← slice buf 8 24)
      .ok (some (.ofIp port (.v6 (.ofOctets oct.val oct.property))))
  else .ok none

def unspecified : Ipv4Addr := ⟨0, 0, 0, 0⟩

def sockaddrToAddr (buf : Bytes) : Except Panic SocketAddr := do
  let addr ← decodeSockaddr (buf[1]?.getD 0) buf
  .ok (addr.getD (.ofIp 0 (.v4 unspecified)))

section Kernel

inductive Endian
  | little
  | big
  deriving DecidableEq, Repr

def neBytes (endian : Endian) (n : UInt16) : Bytes :=
  match endian with
  | .little => [n.toUInt8, (n / 256).toUInt8]
  | .big => toBeBytes n

def saFamily : IpAddr → UInt8
  | .v4 _ => sockaddrAfInet
  | .v6 _ => sockaddrAfInet6

def body (flowinfo : Vector UInt8 4) : IpAddr → Bytes
  | .v4 ip => [ip.a, ip.b, ip.c, ip.d]
  | .v6 ip => flowinfo.toList ++ ip.octets

def sockaddr (endian : Endian) (ip : IpAddr) (port : UInt16) (flowinfo : Vector UInt8 4)
    (rest : Bytes) : Bytes :=
  neBytes endian (saFamily ip).toUInt16 ++ toBeBytes port ++ body flowinfo ip ++ rest

end Kernel

section Reads

variable {buf : Bytes}

theorem index_ok {i : Nat} (h : i < buf.length) : index buf i = .ok buf[i] := by
  rw [index, List.getElem?_eq_getElem h]

theorem slice_ok {start stop : Nat} (h : start ≤ stop) (hb : stop ≤ buf.length) :
    slice buf start stop = .ok ((buf.take stop).drop start) := if_pos ⟨h, hb⟩

theorem copyFromSlice_ok {n : Nat} (h : buf.length = n) : copyFromSlice n buf = .ok ⟨buf, h⟩ :=
  dif_pos h

theorem decodeSockaddr_inet (h : 8 ≤ buf.length) : decodeSockaddr sockaddrAfInet buf =
    .ok (some (.ofIp (fromBeBytes buf[2] buf[3]) (.v4 ⟨buf[4], buf[5], buf[6], buf[7]⟩))) := by
  rw [decodeSockaddr, if_pos rfl, if_neg (Nat.not_lt.mpr h), index_ok (by omega),
    index_ok (by omega), index_ok (by omega), index_ok (by omega), index_ok (by omega),
    index_ok (by omega)]
  rfl

theorem length_octets (h : 24 ≤ buf.length) : ((buf.take 24).drop 8).length = 16 := by
  rw [List.length_drop, List.length_take]
  omega

theorem decodeSockaddr_inet6 (h : 24 ≤ buf.length) : decodeSockaddr sockaddrAfInet6 buf =
    .ok (some (.ofIp (fromBeBytes buf[2] buf[3])
      (.v6 (.ofOctets ((buf.take 24).drop 8) (length_octets h))))) := by
  rw [decodeSockaddr, if_neg (by decide), if_pos rfl, if_neg (Nat.not_lt.mpr h),
    index_ok (by omega), index_ok (by omega), slice_ok (by decide) h]
  exact bind_eq_ok.mpr ⟨buf[2], rfl, bind_eq_ok.mpr ⟨buf[3], rfl, bind_eq_ok.mpr ⟨_, rfl,
    bind_eq_ok.mpr ⟨_, copyFromSlice_ok (length_octets h), rfl⟩⟩⟩⟩

theorem decodeSockaddr_returns (family : UInt8) (buf : Bytes) :
    ∃ addr, decodeSockaddr family buf = .ok addr := by
  by_cases hinet : family = sockaddrAfInet
  · by_cases h : 8 ≤ buf.length
    · exact ⟨_, hinet ▸ decodeSockaddr_inet h⟩
    · rw [decodeSockaddr, if_pos hinet, if_pos (Nat.not_le.mp h)]
      exact ⟨none, rfl⟩
  by_cases hinet6 : family = sockaddrAfInet6
  · by_cases h : 24 ≤ buf.length
    · exact ⟨_, hinet6 ▸ decodeSockaddr_inet6 h⟩
    · rw [decodeSockaddr, if_neg hinet, if_pos hinet6, if_pos (Nat.not_le.mp h)]
      exact ⟨none, rfl⟩
  · rw [decodeSockaddr, if_neg hinet, if_neg hinet6]
    exact ⟨none, rfl⟩

theorem sockaddrToAddr_returns (buf : Bytes) : ∃ addr, sockaddrToAddr buf = .ok addr := by
  obtain ⟨addr, h⟩ := decodeSockaddr_returns (buf[1]?.getD 0) buf
  exact ⟨_, bind_eq_ok.mpr ⟨addr, h, rfl⟩⟩

end Reads

section Names

variable (ip : IpAddr) (port : UInt16) (flowinfo : Vector UInt8 4) (rest : Bytes)

theorem high_byte (n : UInt8) : (n.toUInt16 / 256).toUInt8 = 0 := by
  apply UInt8.toNat_inj.mp
  have hn : n.toNat < 256 := n.toNat_lt
  simp only [UInt16.toNat_toUInt8, UInt16.toNat_div, UInt8.toNat_toUInt16, UInt16.reduceToNat,
    Nat.div_eq_of_lt hn]
  rfl

/-- Behind the right family the decoder undoes what the kernel has written. -/
theorem decodeSockaddr_sockaddr (endian : Endian) :
    decodeSockaddr (saFamily ip) (sockaddr endian ip port flowinfo rest) =
      .ok (some (.ofIp port ip)) := by
  obtain ⟨x, y, hfamily⟩ : ∃ x y, neBytes endian (saFamily ip).toUInt16 = [x, y] := by
    cases endian <;> exact ⟨_, _, rfl⟩
  rw [sockaddr, hfamily]
  cases ip with
  | v4 ip =>
    refine (decodeSockaddr_inet (by simp [toBeBytes, body])).trans ?_
    simp [toBeBytes, body, fromBeBytes_split]
  | v6 ip =>
    have hlen : 24 ≤ ([x, y] ++ toBeBytes port ++ body flowinfo (.v6 ip) ++ rest).length := by
      simp only [toBeBytes, body, List.length_append, List.length_cons, List.length_nil,
        Vector.length_toList, ip.length_octets]
      omega
    have hoct : (([x, y] ++ toBeBytes port ++ body flowinfo (.v6 ip) ++ rest).take 24).drop 8 =
        ip.octets := by
      simp [toBeBytes, body, List.take_append, ip.length_octets]
    refine (decodeSockaddr_inet6 hlen).trans ?_
    simp only [hoct, Ipv6Addr.ofOctets_octets]
    simp [toBeBytes, fromBeBytes_split]

/-- The byte that is taken for the family is the low one only where the low
byte is the second. -/
theorem sockaddrToAddr_big :
    sockaddrToAddr (sockaddr .big ip port flowinfo rest) = .ok (.ofIp port ip) := by
  have hfamily : (sockaddr .big ip port flowinfo rest)[1]?.getD 0 = saFamily ip := by
    cases ip <;> rfl
  exact bind_eq_ok.mpr ⟨_, hfamily ▸ decodeSockaddr_sockaddr ip port flowinfo rest .big, rfl⟩

theorem sockaddrToAddr_little :
    sockaddrToAddr (sockaddr .little ip port flowinfo rest) = .ok (.ofIp 0 (.v4 unspecified)) := by
  have hfamily : (sockaddr .little ip port flowinfo rest)[1]?.getD 0 = 0 :=
    high_byte (saFamily ip)
  rw [sockaddrToAddr, hfamily]
  rfl

end Names

/-- The name that the kernel gives for a sender on a little-endian machine is
decoded to the sender's address and port. -/
def Survives (ip : IpAddr) (port : UInt16) (flowinfo : Vector UInt8 4) (rest : Bytes) : Prop :=
  ∃ addr, sockaddrToAddr (sockaddr .little ip port flowinfo rest) = .ok addr ∧
    addr.ip = ip ∧ addr.port = port

/-- Decoding returns on every buffer, but of all senders only the unspecified
one gets its own address. -/
theorem survives_iff (ip : IpAddr) (port : UInt16) (flowinfo : Vector UInt8 4) (rest : Bytes) :
    (∀ buf, ∃ addr, sockaddrToAddr buf = .ok addr) ∧
    (Survives ip port flowinfo rest ↔ ip = .v4 unspecified ∧ port = 0) := by
  refine ⟨sockaddrToAddr_returns, ?_⟩
  rw [Survives, sockaddrToAddr_little]
  constructor
  · rintro ⟨addr, h, hip, hport⟩
    cases h
    exact ⟨hip.symm, hport.symm⟩
  · rintro ⟨rfl, rfl⟩
    exact ⟨_, rfl, rfl, rfl⟩

theorem sender_lost : ¬ Survives (.v4 ⟨10, 0, 0, 1⟩) 514 #v[0, 0, 0, 0] (List.replicate 8 0) := by
  rintro ⟨addr, h, hip, -⟩
  rw [sockaddrToAddr_little] at h
  cases h
  cases hip

end TptTelemetry.Server.Sockaddr
