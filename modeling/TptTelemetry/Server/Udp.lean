import TptTelemetry.Server.Connection
import TptTelemetry.Server.Sockaddr

namespace TptTelemetry.Server.Udp

open TptTelemetry.Lib.Text TptTelemetry.Lib.Utf8 TptTelemetry.Lib.Net
open TptTelemetry.Server.Connection TptTelemetry.Server.Sockaddr

section Overflow

/-- `u32::from_ne_bytes`. -/
def fromNeBytes (endian : Endian) (a b c d : UInt8) : UInt32 :=
  match endian with
  | .little => UInt32.ofNat (a.toNat + 256 * (b.toNat + 256 * (c.toNat + 256 * d.toNat)))
  | .big => UInt32.ofNat (d.toNat + 256 * (c.toNat + 256 * (b.toNat + 256 * a.toNat)))

def parseRxqOvfl (endian : Endian) (cmsg : Bytes) : Option UInt32 :=
  match cmsg with
  | a :: b :: c :: d :: _ => some (fromNeBytes endian a b c d)
  | _ => none

structure Cmsg where
  level : Int
  type : Int
  data : Bytes
  deriving DecidableEq, Repr

def solSocket : Int := 1

def scmRxqOvfl : Int := 40

def report (endian : Endian) (cm : Cmsg) : Option UInt64 :=
  if cm.level = solSocket ∧ cm.type = scmRxqOvfl then
    (parseRxqOvfl endian cm.data).map UInt32.toUInt64
  else none

def storeReports (endian : Endian) (overflow : UInt64) (control : List Cmsg) : UInt64 :=
  control.foldl (fun stored cm => (report endian cm).getD stored) overflow

theorem storeReports_eq (endian : Endian) (overflow : UInt64) (control : List Cmsg) :
    storeReports endian overflow control =
      (control.filterMap (report endian)).getLastD overflow := by
  induction control generalizing overflow with
  | nil => rfl
  | cons cm control ih =>
    rw [storeReports, List.foldl_cons]
    cases hr : report endian cm with
    | none =>
      rw [List.filterMap_cons_none hr]
      exact ih overflow
    | some v =>
      rw [List.filterMap_cons_some hr, List.getLastD_cons]
      exact ih v

end Overflow

section Loops

/-- What an iteration of `udp_recv_loop_linux` finds: the stop flag, or else what
`recvmsg` returns. -/
inductive Recvmsg
  | stopped
  | received (name : Bytes) (control : List Cmsg) (payload : Bytes)
  | wouldBlock
  | failed
  deriving DecidableEq, Repr

structure Receiver where
  kernelOverflow : UInt64
  delivered : List (Message SocketAddr)

def datagram (remote : SocketAddr) (payload : Bytes) : Message SocketAddr :=
  ⟨.udp, remote, .datagram, payload⟩

def linuxStep (endian : Endian) (r : Receiver) : Recvmsg → Except Panic (Receiver × Bool)
  | .stopped => .ok (r, false)
  | .received name control payload => do
    let overflow := storeReports endian r.kernelOverflow control
    let remote ← sockaddrToAddr name
    .ok (⟨overflow, r.delivered ++ [datagram remote payload]⟩, true)
  | .wouldBlock | .failed => .ok (r, true)

def udpRecvLoopLinux (endian : Endian) (r : Receiver) :
    List Recvmsg → Except Panic (Receiver × Bool)
  | [] => .ok (r, false)
  | p :: polls => do
    match ← linuxStep endian r p with
    | (r, true) => udpRecvLoopLinux endian r polls
    | (r, false) => .ok (r, true)

inductive RecvFrom
  | stopped
  | received (addr : SocketAddr) (payload : Bytes)
  | wouldBlock
  | timedOut
  | failed
  deriving DecidableEq, Repr

def portableStep (delivered : List (Message SocketAddr)) :
    RecvFrom → List (Message SocketAddr) × Bool
  | .stopped => (delivered, false)
  | .received addr payload => (delivered ++ [datagram addr payload], true)
  | .wouldBlock | .timedOut => (delivered, true)
  | .failed => (delivered, false)

def udpRecvLoop (delivered : List (Message SocketAddr)) :
    List RecvFrom → List (Message SocketAddr) × Bool
  | [] => (delivered, false)
  | p :: polls =>
    match portableStep delivered p with
    | (delivered, true) => udpRecvLoop delivered polls
    | (delivered, false) => (delivered, true)

end Loops

section Linux

variable {endian : Endian}

def heard (polls : List Recvmsg) : List Recvmsg := polls.takeWhile (· ≠ .stopped)

def arrived : Recvmsg → Option Bytes
  | .received _ _ payload => some payload
  | _ => none

def reports (endian : Endian) : Recvmsg → List UInt64
  | .received _ control _ => control.filterMap (report endian)
  | _ => []

def remoteOf (name : Bytes) : SocketAddr :=
  match sockaddrToAddr name with
  | .ok addr => addr
  | .error _ => .ofIp 0 (.v4 unspecified)

theorem sockaddrToAddr_eq (name : Bytes) : sockaddrToAddr name = .ok (remoteOf name) := by
  obtain ⟨addr, h⟩ := sockaddrToAddr_returns name
  rw [remoteOf, h]

def messageOf : Recvmsg → Option (Message SocketAddr)
  | .received name _ payload => some (datagram (remoteOf name) payload)
  | _ => none

theorem heard_cons {p : Recvmsg} (hp : p ≠ .stopped) (polls : List Recvmsg) :
    heard (p :: polls) = p :: heard polls := List.takeWhile_cons_of_pos (by simpa using hp)

theorem udpRecvLoopLinux_eq (polls : List Recvmsg) (r : Receiver) :
    udpRecvLoopLinux endian r polls =
      .ok (⟨((heard polls).flatMap (reports endian)).getLastD r.kernelOverflow,
        r.delivered ++ (heard polls).filterMap messageOf⟩, decide (.stopped ∈ polls)) := by
  induction polls generalizing r with
  | nil => simp [udpRecvLoopLinux, heard]
  | cons p polls ih =>
    by_cases hp : p = .stopped
    · subst hp
      simp [udpRecvLoopLinux, linuxStep, heard, bind, Except.bind]
    have hmem : (.stopped ∈ p :: polls) = (.stopped ∈ polls) := by
      simp [Ne.symm hp]
    rw [heard_cons hp, List.flatMap_cons, decide_eq_decide.mpr (iff_of_eq hmem)]
    cases p with
    | stopped => exact absurd rfl hp
    | wouldBlock | failed => exact ih r
    | received name control payload =>
      have hstep : linuxStep endian r (.received name control payload) =
          .ok (⟨storeReports endian r.kernelOverflow control,
            r.delivered ++ [datagram (remoteOf name) payload]⟩, true) := by
        rw [linuxStep, sockaddrToAddr_eq]
        rfl
      rw [udpRecvLoopLinux, hstep]
      simp only [bind, Except.bind]
      rw [ih, storeReports_eq]
      simp [reports, messageOf]

end Linux

section Agreement

/-- What the two loops find in the same iteration on the same socket. The kernel
gives one loop the name of the sender, and the library gives the other one the
sender's address. -/
inductive SameSocket (endian : Endian) : Recvmsg → RecvFrom → Prop
  | stopped : SameSocket endian .stopped .stopped
  | received (ip : IpAddr) (port : UInt16) (flowinfo : Vector UInt8 4) (rest : Bytes)
    (control : List Cmsg) (payload : Bytes) :
    SameSocket endian (.received (sockaddr endian ip port flowinfo rest) control payload)
      (.received (.ofIp port ip) payload)
  | wouldBlock : SameSocket endian .wouldBlock .wouldBlock
  | timedOut : SameSocket endian .wouldBlock .timedOut
  | failed : SameSocket endian .failed .failed

variable {endian : Endian} {polls : List Recvmsg} {portable : List RecvFrom}

def heardUntilError (polls : List Recvmsg) : List Recvmsg :=
  polls.takeWhile (fun p => p ≠ .stopped ∧ p ≠ .failed)

theorem heardUntilError_initial (polls : List Recvmsg) : heardUntilError polls <+: heard polls := by
  induction polls with
  | nil => exact List.prefix_rfl
  | cons p polls ih =>
    cases p with
    | stopped | failed => exact List.nil_prefix
    | received name control payload => exact (List.prefix_cons_inj _).mpr ih
    | wouldBlock => exact (List.prefix_cons_inj _).mpr ih

theorem heardUntilError_eq (h : .failed ∉ heard polls) : heardUntilError polls = heard polls := by
  induction polls with
  | nil => rfl
  | cons p polls ih =>
    cases p with
    | stopped => rfl
    | failed => exact absurd List.mem_cons_self h
    | received name control payload =>
      exact congrArg _ (ih fun hm => h (List.mem_cons_of_mem _ hm))
    | wouldBlock => exact congrArg _ (ih fun hm => h (List.mem_cons_of_mem _ hm))

theorem udpRecvLoop_payloads (h : List.Forall₂ (SameSocket endian) polls portable)
    (delivered : List (Message SocketAddr)) :
    (udpRecvLoop delivered portable).1.map Message.payload =
        delivered.map Message.payload ++ (heardUntilError polls).filterMap arrived ∧
      ((udpRecvLoop delivered portable).2 = true ↔ .stopped ∈ polls ∨ .failed ∈ polls) := by
  induction h generalizing delivered with
  | nil => simp [udpRecvLoop, heardUntilError]
  | @cons p f polls portable hpf _ ih =>
    cases hpf with
    | stopped | failed => simp [udpRecvLoop, portableStep, heardUntilError]
    | wouldBlock | timedOut =>
      obtain ⟨hpay, hret⟩ := ih delivered
      refine ⟨hpay, hret.trans ?_⟩
      simp
    | received ip port flowinfo rest control payload =>
      obtain ⟨hpay, hret⟩ := ih (delivered ++ [datagram (.ofIp port ip) payload])
      refine ⟨?_, hret.trans (by simp)⟩
      rw [List.map_append, List.append_assoc] at hpay
      exact hpay

theorem payloads_messageOf (polls : List Recvmsg) :
    (polls.filterMap messageOf).map Message.payload = polls.filterMap arrived := by
  rw [List.map_filterMap]
  congr 1
  funext p
  cases p <;> rfl

/-- The two receive loops on the same socket. The one for Linux passes on every
datagram that arrives before it is told to stop, each once and in order, and its
statistic is what the kernel has reported last. The portable one passes on the
payloads of exactly those that arrive before the first error, which it does not
survive. -/
theorem loops_agree (h : List.Forall₂ (SameSocket endian) polls portable) :
    ∃ r, udpRecvLoopLinux endian ⟨0, []⟩ polls = .ok (r, decide (.stopped ∈ polls)) ∧
      r.delivered.map Message.payload = (heard polls).filterMap arrived ∧
      r.kernelOverflow = ((heard polls).flatMap (reports endian)).getLastD 0 ∧
      (udpRecvLoop [] portable).1.map Message.payload = (heardUntilError polls).filterMap arrived ∧
      (udpRecvLoop [] portable).1.map Message.payload <+: r.delivered.map Message.payload ∧
      (.failed ∉ heard polls →
        (udpRecvLoop [] portable).1.map Message.payload = r.delivered.map Message.payload) ∧
      ((udpRecvLoop [] portable).2 = true ↔ .stopped ∈ polls ∨ .failed ∈ polls) := by
  obtain ⟨hpay, hret⟩ := udpRecvLoop_payloads h []
  rw [List.map_nil, List.nil_append] at hpay
  have hdelivered : (([] ++ (heard polls).filterMap messageOf).map Message.payload) =
      (heard polls).filterMap arrived := by
    rw [List.nil_append, payloads_messageOf]
  refine ⟨_, udpRecvLoopLinux_eq polls ⟨0, []⟩, hdelivered, rfl, hpay, ?_, fun hnone => ?_, hret⟩
  · rw [hpay, hdelivered]
    exact (heardUntilError_initial polls).filterMap _
  · rw [hpay, hdelivered, heardUntilError_eq hnone]

/-- A receive error between two datagrams, of which the second one brings the
news that the kernel has dropped seven. -/
def aroundError : List Recvmsg :=
  [.received (sockaddr .little (.v4 ⟨10, 0, 0, 1⟩) 514 #v[0, 0, 0, 0] []) [] [97], .failed,
    .received (sockaddr .little (.v4 ⟨10, 0, 0, 1⟩) 514 #v[0, 0, 0, 0] [])
      [⟨solSocket, scmRxqOvfl, [7, 0, 0, 0]⟩] [98], .stopped]

def aroundErrorPortable : List RecvFrom :=
  [.received (.ofIp 514 (.v4 ⟨10, 0, 0, 1⟩)) [97], .failed,
    .received (.ofIp 514 (.v4 ⟨10, 0, 0, 1⟩)) [98], .stopped]

theorem loops_agree_reported :
    ∃ r, udpRecvLoopLinux .little ⟨0, []⟩ aroundError = .ok (r, true) ∧
      r.delivered.map Message.payload = [[97], [98]] ∧ r.kernelOverflow = 7 ∧
      (udpRecvLoop [] aroundErrorPortable).1.map Message.payload = [[97]] := by
  have h : List.Forall₂ (SameSocket .little) aroundError aroundErrorPortable :=
    .cons (.received _ _ _ _ _ _) (.cons .failed (.cons (.received _ _ _ _ _ _) (.cons .stopped .nil)))
  obtain ⟨r, hrun, hpay, hover, hportable, -⟩ := loops_agree h
  refine ⟨r, ?_, ?_, ?_, ?_⟩
  · rw [hrun]
    rfl
  · rw [hpay]
    rfl
  · rw [hover]
    rfl
  · rw [hportable]
    rfl

end Agreement

end TptTelemetry.Server.Udp
