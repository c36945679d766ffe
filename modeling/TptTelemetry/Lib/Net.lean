import TptTelemetry.Lib.Numeral

namespace TptTelemetry.Lib.Net

open TptTelemetry.Lib.Text TptTelemetry.Lib.Numeral

structure Ipv4Addr where
  a : UInt8
  b : UInt8
  c : UInt8
  d : UInt8
  deriving DecidableEq, Repr

structure Ipv6Addr where
  segments : List UInt16
  length_eq : segments.length = 8
  deriving DecidableEq, Repr

inductive IpAddr
  | v4 (addr : Ipv4Addr)
  | v6 (addr : Ipv6Addr)
  deriving DecidableEq, Repr

/-- At most `maxDigits` digits, all of those that follow. Nothing is read when
there are more, or the number leaves the range. -/
def readNumber (radix maxDigits bound : Nat) (allowZeroPrefix : Bool) (s : Str) :
    Option (Nat × Str) :=
  let (ds, rest) := s.span (fun c => (toDigit radix c).isSome)
  if ds = [] ∨ maxDigits < ds.length then none
  else if !allowZeroPrefix ∧ ds.head? = some '0' ∧ 1 < ds.length then none
  else (parseDigits radix bound 0 ds).map (fun n => (n, rest))

def readGivenChar (target : Char) : Str → Option Str
  | [] => none
  | c :: s => if c = target then some s else none

def readSeparator {β : Type} (sep : Char) (index : Nat) (inner : Str → Option (β × Str)) (s : Str) :
    Option (β × Str) :=
  if 0 < index then (readGivenChar sep s).bind inner else inner s

def readIpv4Addr (s : Str) : Option (Ipv4Addr × Str) := do
  let octet := readNumber 10 3 256 false
  let (a, s) ← readSeparator '.' 0 octet s
  let (b, s) ← readSeparator '.' 1 octet s
  let (c, s) ← readSeparator '.' 2 octet s
  let (d, s) ← readSeparator '.' 3 octet s
  some (⟨UInt8.ofNat a, UInt8.ofNat b, UInt8.ofNat c, UInt8.ofNat d⟩, s)

/-- Up to `room` colon-separated groups, the last two of which may be given as
an IPv4 address. -/
def readGroups : (room index : Nat) → Str → List UInt16 × Bool × Str
  | 0, _, s => ([], false, s)
  | room + 1, index, s =>
    match if 0 < room then readSeparator ':' index readIpv4Addr s else none with
    | some (v4, s) =>
      ([v4.a.toUInt16 * 256 + v4.b.toUInt16, v4.c.toUInt16 * 256 + v4.d.toUInt16], true, s)
    | none =>
      match readSeparator ':' index (readNumber 16 4 65536 true) s with
      | some (g, s) =>
        let (gs, v4, s) := readGroups room (index + 1) s
        (UInt16.ofNat g :: gs, v4, s)
      | none => ([], false, s)

theorem length_readGroups (room index : Nat) (s : Str) :
    (readGroups room index s).1.length ≤ room := by
  induction room generalizing index s with
  | zero => simp [readGroups]
  | succ room ih =>
    rw [readGroups]
    split
    · next h =>
      split at h
      · simpa using Nat.succ_le_of_lt ‹0 < room›
      · cases h
    · split
      · simpa using ih _ _
      · simp

/-- The groups before `::`, and those behind it, which leave room for at least
one group of zeros. -/
def readIpv6Addr (s : Str) : Option (Ipv6Addr × Str) :=
  let head := readGroups 8 0 s
  if h : head.1.length = 8 then some (⟨head.1, h⟩, head.2.2)
  else if head.2.1 then none
  else do
    let r ← readGivenChar ':' head.2.2
    let r ← readGivenChar ':' r
    let tail := readGroups (8 - (head.1.length + 1)) 0 r
    let zeros := List.replicate (8 - tail.1.length - head.1.length) 0
    some (⟨head.1 ++ zeros ++ tail.1, by
      have hh : head.1.length ≤ 8 := length_readGroups 8 0 s
      have ht : tail.1.length ≤ 8 - (head.1.length + 1) := length_readGroups _ 0 r
      simp only [List.length_append, zeros, List.length_replicate]
      omega⟩, tail.2.2)

def readIpAddr (s : Str) : Option (IpAddr × Str) :=
  match readIpv4Addr s with
  | some (a, s) => some (.v4 a, s)
  | none => (readIpv6Addr s).map (fun p => (.v6 p.1, p.2))

def parseWith {β : Type} (inner : Str → Option (β × Str)) (s : Str) : Option β :=
  match inner s with
  | some (a, []) => some a
  | _ => none

def parseIpv4 (s : Str) : Option Ipv4Addr :=
  if 15 < byteLen s then none else parseWith readIpv4Addr s

def parseIpv6 (s : Str) : Option Ipv6Addr := parseWith readIpv6Addr s

def parseIp (s : Str) : Option IpAddr := parseWith readIpAddr s

def Ipv4Addr.display (addr : Ipv4Addr) : Str :=
  ['.'].intercalate ([addr.a, addr.b, addr.c, addr.d].map (fun n => decimal n.toNat))

section Ipv4

theorem decimal_octet : ∀ n : Fin 256, (decimal n.val).length ≤ 3 ∧
    ¬ ((decimal n.val).head? = some '0' ∧ 1 < (decimal n.val).length) := by
  decide +kernel

theorem readNumber_decimal (n : UInt8) {r : Str} (hr : ∀ c ∈ r.head?, (toDigit 10 c).isSome = false) :
    readNumber 10 3 256 false (decimal n.toNat ++ r) = some (n.toNat, r) := by
  obtain ⟨hlen, hzero⟩ := decimal_octet ⟨n.toNat, n.toNat_lt⟩
  have hall : ∀ c ∈ decimal n.toNat, (toDigit 10 c).isSome = true := by
    intro c hc
    rw [toDigit_ten (isDigit_decimal hc)]
    rfl
  have hspan : (decimal n.toNat ++ r).span (fun c => (toDigit 10 c).isSome) = (decimal n.toNat, r) := by
    rw [List.span_eq_takeWhile_dropWhile, List.takeWhile_append_of_pos hall,
      List.dropWhile_append_of_pos hall]
    cases r with
    | nil => simp
    | cons c r => simp [hr c rfl]
  have hvalue : parseDigits 10 256 0 (decimal n.toNat) = some n.toNat := by
    have hdig : ∀ c ∈ decimal n.toNat, c.isDigit := fun _ hc => isDigit_decimal hc
    have hv : Nat.ofDigitChars 10 (decimal n.toNat) 0 = n.toNat := Nat.ofDigitChars_ten_toDigits
    rw [parseDigits_eq hdig 0 (by rw [hv]; exact n.toNat_lt), hv]
  have hroom : ¬ (decimal n.toNat = [] ∨ 3 < (decimal n.toNat).length) := by
    simp only [decimal_ne_nil, false_or, Nat.not_lt]
    exact hlen
  rw [readNumber, hspan]
  simp only [hroom, if_false, Bool.not_false, true_and, if_neg hzero, hvalue, Option.map_some]

theorem Ipv4Addr.display_eq (addr : Ipv4Addr) : addr.display =
    decimal addr.a.toNat ++ '.' :: (decimal addr.b.toNat ++ '.' :: (decimal addr.c.toNat ++
      '.' :: (decimal addr.d.toNat ++ []))) := by
  simp [Ipv4Addr.display, List.intercalate, List.intersperse]

theorem Ipv4Addr.ascii_display (addr : Ipv4Addr) : Ascii addr.display := by
  have hdot : ∀ {s : Str}, Ascii s → Ascii ('.' :: s) :=
    fun hs => List.forall_mem_cons.mpr ⟨rfl, hs⟩
  rw [display_eq, List.append_nil]
  exact ascii_append.mpr ⟨ascii_decimal _, hdot (ascii_append.mpr ⟨ascii_decimal _,
    hdot (ascii_append.mpr ⟨ascii_decimal _, hdot (ascii_decimal _)⟩)⟩)⟩

theorem Ipv4Addr.byteLen_display (addr : Ipv4Addr) : byteLen addr.display ≤ 15 := by
  have hlen : ∀ n : UInt8, (decimal n.toNat).length ≤ 3 :=
    fun n => (decimal_octet ⟨n.toNat, n.toNat_lt⟩).1
  have ha := hlen addr.a
  have hb := hlen addr.b
  have hc := hlen addr.c
  have hd := hlen addr.d
  rw [byteLen_ascii addr.ascii_display, display_eq]
  simp only [List.length_append, List.length_cons, List.length_nil]
  omega

theorem parseIpv4_display (addr : Ipv4Addr) : parseIpv4 addr.display = some addr := by
  have hdot : ∀ r : Str, ∀ c ∈ ('.' :: r).head?, (toDigit 10 c).isSome = false := by
    rintro r c ⟨⟩
    rfl
  have hend : ∀ c ∈ ([] : Str).head?, (toDigit 10 c).isSome = false := by simp
  have hread : readIpv4Addr addr.display = some (addr, []) := by
    rw [Ipv4Addr.display_eq, readIpv4Addr]
    simp only [readSeparator, readGivenChar, readNumber_decimal _ (hdot _),
      readNumber_decimal _ hend, Option.bind_eq_bind, Option.bind_some, Nat.lt_irrefl, Nat.zero_lt_succ,
      if_true, if_false, UInt8.ofNat_toNat]
  rw [parseIpv4, if_neg (Nat.not_lt.mpr addr.byteLen_display), parseWith, hread]

end Ipv4

/-- The address behind `::ffff:0:0/96`. -/
def Ipv6Addr.toIpv4Mapped (addr : Ipv6Addr) : Option Ipv4Addr :=
  match addr.segments.drop 6 with
  | [ab, cd] =>
    if addr.segments.take 6 = [0, 0, 0, 0, 0, 0xffff] then
      some ⟨(ab / 256).toUInt8, ab.toUInt8, (cd / 256).toUInt8, cd.toUInt8⟩
    else none
  | _ => none

structure Span where
  start : Nat
  len : Nat
  deriving DecidableEq, Repr

def longestZeroes (segments : List UInt16) : Span :=
  let step (spans : Span × Span) (segment : UInt16 × Nat) : Span × Span :=
    let (longest, current) := spans
    if segment.1 = 0 then
      let current := ⟨if current.len = 0 then segment.2 else current.start, current.len + 1⟩
      (if longest.len < current.len then current else longest, current)
    else (longest, ⟨0, 0⟩)
  (segments.zipIdx.foldl step (⟨0, 0⟩, ⟨0, 0⟩)).1

def fmtSubslice (chunk : List UInt16) : Str :=
  [':'].intercalate (chunk.map (fun segment => Nat.toDigits 16 segment.toNat))

def Ipv6Addr.display (addr : Ipv6Addr) : Str :=
  match addr.toIpv4Mapped with
  | some ipv4 => "::ffff:".toList ++ ipv4.display
  | none =>
    let zeroes := longestZeroes addr.segments
    if 1 < zeroes.len then
      fmtSubslice (addr.segments.take zeroes.start) ++ "::".toList ++
        fmtSubslice (addr.segments.drop (zeroes.start + zeroes.len))
    else fmtSubslice addr.segments

def IpAddr.display : IpAddr → Str
  | .v4 addr => addr.display
  | .v6 addr => addr.display

example : Ipv6Addr.display ⟨[0x2001, 0xdb8, 0, 0, 1, 0, 0, 1], rfl⟩ = "2001:db8::1:0:0:1".toList := by
  decide +kernel
example : Ipv6Addr.display ⟨[0, 0, 0, 0, 0, 0xffff, 0x0a00, 5], rfl⟩ = "::ffff:10.0.0.5".toList := by
  decide +kernel
example : parseIpv4 "10.0.0.5".toList = some ⟨10, 0, 0, 5⟩ := by decide +kernel
example : parseIpv4 "10.0.0.05".toList = none := by decide +kernel
example : parseIp "fe80::1:10.0.0.5".toList =
    some (.v6 ⟨[0xfe80, 0, 0, 0, 0, 1, 0x0a00, 5], rfl⟩) := by decide +kernel

section Octets

def toBeBytes (n : UInt16) : List UInt8 := [(n / 256).toUInt8, n.toUInt8]

def fromBeBytes (hi lo : UInt8) : UInt16 := hi.toUInt16 * 256 + lo.toUInt16

theorem fromBeBytes_split (n : UInt16) : fromBeBytes (n / 256).toUInt8 n.toUInt8 = n := by
  apply UInt16.toNat_inj.mp
  have hn : n.toNat < 65536 := n.toNat_lt
  simp only [fromBeBytes, UInt16.toNat_add, UInt16.toNat_mul, UInt8.toNat_toUInt16,
    UInt16.toNat_toUInt8, UInt16.toNat_div, UInt16.reduceToNat]
  omega

def groups : List UInt8 → List UInt16
  | hi :: lo :: rest => fromBeBytes hi lo :: groups rest
  | _ => []

theorem length_groups (octets : List UInt8) : (groups octets).length = octets.length / 2 := by
  induction octets using groups.induct with
  | case1 hi lo rest ih =>
    rw [groups, List.length_cons, ih, List.length_cons, List.length_cons]
    omega
  | case2 octets h =>
    cases octets with
    | nil => rfl
    | cons hi octets =>
      cases octets with
      | nil => simp [groups]
      | cons lo rest => exact absurd rfl (h hi lo rest)

theorem groups_flatMap (segments : List UInt16) :
    groups (segments.flatMap toBeBytes) = segments := by
  induction segments with
  | nil => rfl
  | cons n segments ih =>
    rw [List.flatMap_cons, toBeBytes, List.cons_append, List.cons_append, groups,
      fromBeBytes_split, List.nil_append, ih]

def Ipv6Addr.octets (addr : Ipv6Addr) : List UInt8 := addr.segments.flatMap toBeBytes

def Ipv6Addr.ofOctets (octets : List UInt8) (h : octets.length = 16) : Ipv6Addr :=
  ⟨groups octets, by rw [length_groups, h]⟩

theorem Ipv6Addr.length_octets (addr : Ipv6Addr) : addr.octets.length = 16 := by
  rw [octets, List.length_flatMap]
  simp [toBeBytes, addr.length_eq]

theorem Ipv6Addr.ofOctets_octets (addr : Ipv6Addr) :
    ofOctets addr.octets addr.length_octets = addr := by
  rw [ofOctets, Ipv6Addr.mk.injEq]
  exact groups_flatMap addr.segments

end Octets

inductive SocketAddr
  | v4 (ip : Ipv4Addr) (port : UInt16)
  | v6 (ip : Ipv6Addr) (port : UInt16) (flowinfo scopeId : UInt32)
  deriving DecidableEq, Repr

def SocketAddr.ofIp (port : UInt16) : IpAddr → SocketAddr
  | .v4 ip => .v4 ip port
  | .v6 ip => .v6 ip port 0 0

def SocketAddr.ip : SocketAddr → IpAddr
  | .v4 ip _ => .v4 ip
  | .v6 ip _ _ _ => .v6 ip

def SocketAddr.port : SocketAddr → UInt16
  | .v4 _ port => port
  | .v6 _ port _ _ => port

end TptTelemetry.Lib.Net
