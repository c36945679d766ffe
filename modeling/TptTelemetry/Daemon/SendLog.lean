import TptTelemetry.Daemon.Receivers
import TptTelemetry.Lib.TextLines

namespace TptTelemetry.Daemon.SendLog

open TptTelemetry.Framing TptTelemetry.Lib TptTelemetry.Lib.Incremental TptTelemetry.Lib.Text TptTelemetry.Lib.Utf8
open TptTelemetry.Lib.Net TptTelemetry.Lib.Numeral TptTelemetry.Lib.TextLines
open TptTelemetry.Framing.Decoder TptTelemetry.Framing.Steps TptTelemetry.Framing.Wire
open TptTelemetry.Framing.Dedicated TptTelemetry.Server.Connection TptTelemetry.Server.Udp
open TptTelemetry.Daemon.Ingest TptTelemetry.Daemon.Receivers

section Options

inductive Target
  | udp (addr : Str)
  | tcp (addr : Str)
  deriving DecidableEq, Repr

structure Opts where
  target : Target
  messages : List Str
  repeats : Nat
  intervalMs : Nat
  deriving DecidableEq, Repr

def Opts.default : Opts :=
  ⟨.udp "127.0.0.1:514".toList, ["%ASA-6-302013: Built inbound TCP connection".toList], 1, 0⟩

/-- What the tool meets: the files, the standard input, the resolver, and the
sockets. A write that fails may have sent the first bytes. -/
structure World where
  readToString : Str → Except Str Str
  stdin : Str
  toSocketAddrs : Str → Except Str (List SocketAddr)
  bind : Except Str Unit
  connect : SocketAddr → Except Str Unit
  io : Nat → Option (Nat × Str)

def readLines (w : World) (path : Str) : Except Str (List Str) :=
  match w.readToString path with
  | .ok data => .ok (lines data)
  | .error e => .error ("read ".toList ++ path ++ ": ".toList ++ e)

def parseNumber (name v : Str) : Except Str Nat :=
  match parseUnsigned 10 (2 ^ 64) v with
  | some n => .ok n
  | none => .error ("invalid ".toList ++ name ++ " (expected integer)".toList)

def valued : List Str :=
  ["--udp", "--tcp", "--message", "--file", "--repeat", "--interval-ms"].map String.toList

def setOption (w : World) (name v : Str) (opts : Opts) : Except Str Opts :=
  if name = "--udp".toList then .ok { opts with target := .udp v }
  else if name = "--tcp".toList then .ok { opts with target := .tcp v }
  else if name = "--message".toList then .ok { opts with messages := [v] }
  else if name = "--file".toList then
    (readLines w v).map fun messages => { opts with messages := messages }
  else if name = "--repeat".toList then
    (parseNumber name v).map fun n => { opts with repeats := n }
  else (parseNumber name v).map fun n => { opts with intervalMs := n }

/-- The loop over the arguments. There are no options if help was asked for. The
standard input can be read once. -/
def parseArgs (w : World) : List Str → Str → Opts → Except Str (Option Opts)
  | [], _, opts => .ok (some opts)
  | a :: args, stdin, opts =>
    if a ∈ valued then
      match args with
      | [] => .error ("missing value for ".toList ++ a)
      | v :: args =>
        match setOption w a v opts with
        | .ok opts => parseArgs w args stdin opts
        | .error e => .error e
    else if a = "--stdin".toList then parseArgs w args [] { opts with messages := lines stdin }
    else if a = "--help".toList ∨ a = "-h".toList then .ok none
    else .error ("unknown argument: ".toList ++ a)

end Options

section Sending

def display : SocketAddr → Str
  | .v4 ip port => ip.display ++ ':' :: decimal port.toNat
  | .v6 ip port _ scopeId =>
    '[' :: ip.display ++ (if scopeId = 0 then [] else '%' :: decimal scopeId.toNat) ++ "]:".toList ++
      decimal port.toNat

def repeated (opts : Opts) : List Str := (List.replicate opts.repeats opts.messages).flatten

def sendAllTo (io : Nat → Option (Nat × Str)) (resolved : SocketAddr) :
    Nat → List Str → List Bytes × Except Str Unit
  | _, [] => ([], .ok ())
  | k, m :: msgs =>
    match io k with
    | none =>
      let (sent, result) := sendAllTo io resolved (k + 1) msgs
      (encode m :: sent, result)
    | some (_, e) => ([], .error ("send_to ".toList ++ display resolved ++ ": ".toList ++ e))

/-- The bytes that are written, from the `k`-th call on. Nothing is written for
no bytes. -/
def writeAll (io : Nat → Option (Nat × Str)) (resolved : SocketAddr) :
    Nat → List Bytes → Bytes × Except Str Unit
  | _, [] => ([], .ok ())
  | k, p :: ps =>
    match if p = [] then none else io k with
    | none =>
      let (sent, result) := writeAll io resolved (k + 1) ps
      (p ++ sent, result)
    | some (n, e) =>
      (p.take n, .error ("write ".toList ++ display resolved ++ ": ".toList ++ e))

inductive Sent
  | nothing
  | datagrams (resolved : SocketAddr) (ds : List Bytes)
  | stream (resolved : SocketAddr) (bytes : Bytes)

def resolve (w : World) (addr : Str) : Except Str SocketAddr :=
  match w.toSocketAddrs addr with
  | .error e => .error ("resolve ".toList ++ addr ++ ": ".toList ++ e)
  | .ok [] => .error ("no address resolved for ".toList ++ addr)
  | .ok (resolved :: _) => .ok resolved

def send (w : World) (opts : Opts) : Sent × Except Str Unit :=
  match opts.target with
  | .udp addr =>
    match w.bind with
    | .error e => (.nothing, .error e)
    | .ok () =>
      match resolve w addr with
      | .error e => (.nothing, .error e)
      | .ok resolved =>
        let (ds, result) := sendAllTo w.io resolved 0 (repeated opts)
        (.datagrams resolved ds, result)
  | .tcp addr =>
    match resolve w addr with
    | .error e => (.nothing, .error e)
    | .ok resolved =>
      match w.connect resolved with
      | .error e =>
        (.nothing, .error ("connect ".toList ++ display resolved ++ ": ".toList ++ e))
      | .ok () =>
        let (bytes, result) :=
          writeAll w.io resolved 0 ((repeated opts).flatMap (fun m => [encode m, [LF]]))
        (.stream resolved bytes, result)

def run (w : World) (args : List Str) : Sent × Except Str Unit :=
  match parseArgs w args w.stdin .default with
  | .error e => (.nothing, .error e)
  | .ok none => (.nothing, .ok ())
  | .ok (some opts) =>
    if opts.messages = [] then (.nothing, .error "no messages to send".toList) else send w opts

end Sending

section Texts

theorem lf_mem_encode {s : Str} : LF ∈ encode s ↔ '\n' ∈ s := mem_encode_iff (c := '\n') (by decide) s

theorem cr_getLast_encode {s : Str} (h : s.getLast? ≠ some '\r') : (encode s).getLast? ≠ some CR := by
  induction s using List.reverseRecOn with
  | nil => simp [encode]
  | append_singleton s c _ =>
    intro hlast
    rw [encode_append, List.getLast?_append] at hlast
    have hne : encode [c] ≠ [] := by
      intro hnil
      have hlen := length_encode [c]
      rw [hnil] at hlen
      exact absurd hlen.symm (Nat.pos_iff_ne_zero.mp (by simp [byteLen, Char.utf8Size_pos]))
    obtain ⟨b, hb⟩ : ∃ b, (encode [c]).getLast? = some b := ⟨_, List.getLast?_eq_some_getLast hne⟩
    rw [hb, Option.some_or] at hlast
    cases hlast
    have hmem : '\r' ∈ [c] := (mem_encode_iff (by decide) [c]).mp (List.mem_of_getLast? hb)
    rw [List.mem_singleton] at hmem
    rw [← hmem] at h
    simp at h

theorem readLines_lines {w : World} {path : Str} {ms : List Str} (h : readLines w path = .ok ms) :
    ∀ m ∈ ms, '\n' ∉ m := by
  unfold readLines at h
  split at h <;> cases h
  exact fun m hm => not_mem_lines hm

theorem setOption_lines {w : World} {name v : Str} {opts opts' : Opts}
    (h : setOption w name v opts = .ok opts') (hname : name ≠ "--message".toList)
    (hopts : ∀ m ∈ opts.messages, '\n' ∉ m) : ∀ m ∈ opts'.messages, '\n' ∉ m := by
  unfold setOption at h
  rw [if_neg hname] at h
  split at h
  · cases h
    exact hopts
  split at h
  · cases h
    exact hopts
  split at h
  · cases hr : readLines w v with
    | error e =>
      rw [hr] at h
      cases h
    | ok ms =>
      rw [hr] at h
      cases h
      exact readLines_lines hr
  split at h
  all_goals
    cases hn : parseNumber name v with
    | error e =>
      rw [hn] at h
      cases h
    | ok n =>
      rw [hn] at h
      cases h
      exact hopts

/-- What is read from a file or from the standard input is sent line by line. -/
theorem parseArgs_lines {w : World} {args : List Str} {stdin : Str} {opts opts' : Opts}
    (h : parseArgs w args stdin opts = .ok (some opts')) (hargs : "--message".toList ∉ args)
    (hopts : ∀ m ∈ opts.messages, '\n' ∉ m) : ∀ m ∈ opts'.messages, '\n' ∉ m := by
  induction args, stdin, opts using parseArgs.induct w with
  | case1 stdin opts =>
    cases h
    exact hopts
  | case2 a stdin opts ha =>
    rw [parseArgs, if_pos ha] at h
    cases h
  | case3 a stdin opts ha v args opts'' hset ih =>
    rw [parseArgs, if_pos ha] at h
    simp only [hset] at h
    simp only [List.mem_cons, not_or] at hargs
    exact ih h hargs.2.2 (setOption_lines hset (Ne.symm hargs.1) hopts)
  | case4 a stdin opts ha v args e hset =>
    rw [parseArgs, if_pos ha] at h
    simp only [hset] at h
    cases h
  | case5 args stdin opts ha ih =>
    unfold parseArgs at h
    rw [if_neg ha, if_pos rfl] at h
    exact ih h (fun hm => hargs (List.mem_cons_of_mem _ hm)) fun m hm => not_mem_lines hm
  | case6 a args stdin opts ha hstdin hhelp =>
    unfold parseArgs at h
    rw [if_neg ha, if_neg hstdin, if_pos hhelp] at h
    cases h
  | case7 a args stdin opts ha hstdin hhelp =>
    unfold parseArgs at h
    rw [if_neg ha, if_neg hstdin, if_neg hhelp] at h
    cases h

end Texts

section Transfer

variable {w : World} {args : List Str} {opts : Opts} {resolved : SocketAddr} {framing : TcpFraming}
  {maxFrameLen : Nat} {m : Str} {msgs : List Str}

/-- A message that the daemon can tell from what follows: it is shorter than the
ceiling, its end is not taken for a part of the line's end, and in the automatic
mode its first word does not pass for a count. No line is one for a daemon that
expects counts. -/
def Fits (framing : TcpFraming) (maxFrameLen : Nat) (m : Str) : Prop :=
  m.getLast? ≠ some '\r' ∧ byteLen m < (TcpDecoder.new framing maxFrameLen).maxFrameLen ∧
    match framing with
    | .nonTransparent => True
    | .auto => SP ∈ encode m ∧ NoCount (encode m)
    | .octetCounting => False

instance (maxFrameLen : Nat) (m : Str) : (framing : TcpFraming) → Decidable (Fits framing maxFrameLen m)
  | .nonTransparent => inferInstanceAs (Decidable (_ ∧ _ ∧ True))
  | .auto => inferInstanceAs (Decidable (_ ∧ _ ∧ _ ∧ _))
  | .octetCounting => inferInstanceAs (Decidable (_ ∧ _ ∧ False))

def terminated (m : Str) : Bytes := encode m ++ [LF]

theorem plain_line (hlf : '\n' ∉ m) (h : Fits .nonTransparent maxFrameLen m) :
    (⟨encode m, false⟩ : Line).Plain (TcpDecoder.new .nonTransparent maxFrameLen).maxFrameLen := by
  obtain ⟨hcr, hlen, -⟩ := h
  refine ⟨fun hm => hlf (lf_mem_encode.mp hm), cr_getLast_encode hcr, ?_⟩
  rw [Line.body, if_neg Bool.false_ne_true, length_encode]
  exact hlen

theorem plain_mixed (hlf : '\n' ∉ m) (h : Fits .auto maxFrameLen m) :
    (Mixed.Sent.line (encode m)).Plain (TcpDecoder.new .auto maxFrameLen).maxFrameLen := by
  obtain ⟨hcr, hlen, hspace, hcount⟩ := h
  refine ⟨fun hm => hlf (lf_mem_encode.mp hm), cr_getLast_encode hcr, ?_, hspace, hcount⟩
  rw [length_encode]
  exact hlen

theorem sends_fits (h : ∀ m ∈ msgs, '\n' ∉ m ∧ Fits framing maxFrameLen m) :
    Sends maxFrameLen framing (msgs.map encode) (msgs.flatMap terminated) := by
  cases framing with
  | nonTransparent =>
    have hsends : Sends maxFrameLen .nonTransparent
        ((msgs.map fun m => (⟨encode m, false⟩ : Line)).map Line.payload) _ :=
      .lines (List.forall_mem_map.mpr fun m hm => plain_line (h m hm).1 (h m hm).2)
    rwa [List.map_map, List.flatMap_map] at hsends
  | auto =>
    have hsends : Sends maxFrameLen .auto
        ((msgs.map fun m => Mixed.Sent.line (encode m)).map Mixed.Sent.payload) _ :=
      .mixed (List.forall_mem_map.mpr fun m hm => plain_mixed (h m hm).1 (h m hm).2)
    rwa [List.map_map, List.flatMap_map] at hsends
  | octetCounting =>
    cases msgs with
    | nil => exact .counted (by simp)
    | cons m msgs => exact (h m List.mem_cons_self).2.2.2.elim

theorem flatten_pieces (msgs : List Str) :
    (msgs.flatMap (fun m => [encode m, [LF]])).flatten = msgs.flatMap terminated := by
  induction msgs with
  | nil => rfl
  | cons m msgs ih =>
    rw [List.flatMap_cons, List.flatten_append, ih, List.flatMap_cons]
    simp [terminated]

theorem writeAll_initial (io : Nat → Option (Nat × Str)) (k : Nat) (ps : List Bytes) :
    (writeAll io resolved k ps).1 <+: ps.flatten ∧
      ((writeAll io resolved k ps).2 = .ok () → (writeAll io resolved k ps).1 = ps.flatten) := by
  induction ps generalizing k with
  | nil => exact ⟨List.prefix_rfl, fun _ => rfl⟩
  | cons p ps ih =>
    obtain ⟨hpre, hall⟩ := ih (k + 1)
    rw [writeAll, List.flatten_cons]
    split
    · exact ⟨(List.prefix_append_right_inj p).mpr hpre, fun hok => congrArg (p ++ ·) (hall hok)⟩
    · next n e _ =>
      refine ⟨(List.take_prefix n p).trans (List.prefix_append p _), fun hok => ?_⟩
      cases hok

theorem sendAllTo_whole (io : Nat → Option (Nat × Str)) (k : Nat) (msgs : List Str)
    (h : (sendAllTo io resolved k msgs).2 = .ok ()) :
    (sendAllTo io resolved k msgs).1 = msgs.map encode := by
  induction msgs generalizing k with
  | nil => rfl
  | cons m msgs ih =>
    rw [sendAllTo, List.map_cons] at *
    split at h
    · exact congrArg (encode m :: ·) (ih (k + 1) h)
    · cases h

theorem run_of_parse (hparse : parseArgs w args w.stdin .default = .ok (some opts))
    (hsome : (run w args).1 ≠ .nothing) : run w args = send w opts := by
  rw [run, hparse] at hsome ⊢
  dsimp only at hsome ⊢
  split
  · next hnil =>
    rw [if_pos hnil] at hsome
    exact absurd rfl hsome
  · rfl

/-- What a run can send: nothing, or its messages over the transport it was told
to use. -/
theorem send_cases (w : World) (opts : Opts) :
    (send w opts).1 = .nothing ∨
    (∃ addr resolved, opts.target = .udp addr ∧ send w opts =
      (.datagrams resolved (sendAllTo w.io resolved 0 (repeated opts)).1,
        (sendAllTo w.io resolved 0 (repeated opts)).2)) ∨
    ∃ addr resolved, opts.target = .tcp addr ∧ send w opts =
      (.stream resolved (writeAll w.io resolved 0 ((repeated opts).flatMap (fun m => [encode m, [LF]]))).1,
        (writeAll w.io resolved 0 ((repeated opts).flatMap (fun m => [encode m, [LF]]))).2) := by
  unfold send
  split
  · next addr htarget =>
    split
    · exact Or.inl rfl
    · split
      · exact Or.inl rfl
      · next resolved _ => exact Or.inr (Or.inl ⟨addr, resolved, htarget, rfl⟩)
  · next addr htarget =>
    split
    · exact Or.inl rfl
    · next resolved _ =>
      split
      · exact Or.inl rfl
      · exact Or.inr (Or.inr ⟨addr, resolved, htarget, rfl⟩)

theorem stream_initial {bytes : Bytes} (hparse : parseArgs w args w.stdin .default = .ok (some opts))
    (hsent : (run w args).1 = .stream resolved bytes) :
    (∃ addr, opts.target = .tcp addr) ∧ bytes <+: (repeated opts).flatMap terminated ∧
      ((run w args).2 = .ok () → bytes = (repeated opts).flatMap terminated) := by
  have hrun := run_of_parse hparse (by rw [hsent]; simp)
  rw [hrun] at hsent ⊢
  obtain hnone | ⟨addr, resolved, -, hsend⟩ | ⟨addr, resolved, htarget, hsend⟩ := send_cases w opts
  · cases hnone.symm.trans hsent
  · rw [hsend] at hsent
    cases hsent
  · rw [hsend] at hsent ⊢
    cases hsent
    rw [← flatten_pieces]
    exact ⟨⟨addr, htarget⟩, writeAll_initial w.io 0 _⟩

theorem datagrams_whole {ds : List Bytes} (hparse : parseArgs w args w.stdin .default = .ok (some opts))
    (hsent : (run w args).1 = .datagrams resolved ds) (hok : (run w args).2 = .ok ()) :
    ds = (repeated opts).map encode := by
  have hrun := run_of_parse hparse (by rw [hsent]; simp)
  rw [hrun] at hsent hok
  obtain hnone | ⟨addr, resolved, -, hsend⟩ | ⟨addr, resolved, -, hsend⟩ := send_cases w opts
  · cases hnone.symm.trans hsent
  · rw [hsend] at hsent hok
    cases hsent
    exact sendAllTo_whole w.io 0 _ hok
  · rw [hsend] at hsent
    cases hsent

theorem mem_repeated {m : Str} (h : m ∈ repeated opts) : m ∈ opts.messages := by
  obtain ⟨ms, hms, hm⟩ := List.mem_flatten.mp h
  rwa [List.eq_of_mem_replicate hms] at hm

theorem default_lines : ∀ m ∈ Opts.default.messages, '\n' ∉ m := by
  intro m hm
  rw [List.mem_singleton.mp hm]
  decide

theorem repeated_fits (hparse : parseArgs w args w.stdin .default = .ok (some opts))
    (hlines : "--message".toList ∉ args ∨ ∀ m ∈ opts.messages, '\n' ∉ m)
    (hfits : ∀ m ∈ opts.messages, Fits framing maxFrameLen m) :
    ∀ m ∈ repeated opts, '\n' ∉ m ∧ Fits framing maxFrameLen m := by
  have hlf : ∀ m ∈ opts.messages, '\n' ∉ m :=
    hlines.elim (fun hargs => parseArgs_lines hparse hargs default_lines) id
  exact fun m hm => ⟨hlf m (mem_repeated hm), hfits m (mem_repeated hm)⟩

inductive Reaches : Sent → Receivers.Receiver → Prop
  | datagrams {resolved : SocketAddr} {ds : List Bytes} {polls : List Recvmsg}
    (h : (heard polls).filterMap arrived = ds) : Reaches (.datagrams resolved ds) (.udp polls)
  | stream {resolved addr : SocketAddr} {bytes : Bytes} {polls : List Poll}
    (h : (received polls).flatten = bytes) : Reaches (.stream resolved bytes) (.tcp addr polls)

/-- What the tool sends is a sender's lines for the daemon, over either transport
and however its options are given. Over UDP any text will do. -/
theorem sender_carried {receiver : Receivers.Receiver}
    (hparse : parseArgs w args w.stdin .default = .ok (some opts))
    (hlines : ∀ addr, opts.target = .tcp addr →
      "--message".toList ∉ args ∨ ∀ m ∈ opts.messages, '\n' ∉ m)
    (hfits : ∀ addr, opts.target = .tcp addr → ∀ m ∈ opts.messages, Fits framing maxFrameLen m)
    (hok : (run w args).2 = .ok ()) (hreach : Reaches (run w args).1 receiver) :
    Carries framing maxFrameLen receiver (repeated opts) := by
  generalize hsent : (run w args).1 = sent at hreach
  cases hreach with
  | datagrams h => exact .udp (h.trans (datagrams_whole hparse hsent hok))
  | stream h =>
    obtain ⟨⟨addr, htarget⟩, -, hwhole⟩ := stream_initial hparse hsent
    have hclean := repeated_fits hparse (hlines addr htarget) (hfits addr htarget)
    exact .tcp (sends_fits hclean) (h.trans (hwhole hok))

/-- A file of two lines, and sockets that work. -/
def intact : World :=
  { readToString := fun _ => .ok "up\r\ndown".toList
    stdin := []
    toSocketAddrs := fun _ => .ok [.v4 ⟨127, 0, 0, 1⟩ 514]
    bind := .ok ()
    connect := fun _ => .ok ()
    io := fun _ => none }

def twiceArgs : List Str :=
  ["--tcp", "localhost:514", "--message", "up now", "--repeat", "2"].map String.toList

def twicePolls : List Poll := [.ok (encode "up now\nup".toList), .ok (encode " now\n".toList), .ok []]

theorem sender_carried_twice : Carries .auto 16 (.tcp (.v4 ⟨127, 0, 0, 1⟩ 40000) twicePolls)
    ["up now".toList, "up now".toList] := by
  have hparse : parseArgs intact twiceArgs intact.stdin .default =
      .ok (some ⟨.tcp "localhost:514".toList, ["up now".toList], 2, 0⟩) := by
    decide +kernel
  have hrun : run intact twiceArgs =
      (.stream (.v4 ⟨127, 0, 0, 1⟩ 514) (encode "up now\nup now\n".toList), .ok ()) := by
    rw [run, hparse]
    rfl
  have hreach : Reaches (run intact twiceArgs).1 (.tcp (.v4 ⟨127, 0, 0, 1⟩ 40000) twicePolls) := by
    rw [hrun]
    exact .stream rfl
  have hlines : ∀ m ∈ ["up now".toList], '\n' ∉ m := by decide
  have hfits : ∀ m ∈ ["up now".toList], Fits .auto 16 m := by decide +kernel
  have hok : (run intact twiceArgs).2 = .ok () := by
    rw [hrun]
  exact sender_carried hparse (fun _ _ => Or.inr hlines) (fun _ _ => hfits) hok hreach

end Transfer

end TptTelemetry.Daemon.SendLog
