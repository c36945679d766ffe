import Mathlib.Algebra.Order.BigOperators.Group.List
import Mathlib.Algebra.Order.Ring.Nat
import TptTelemetry.Lib.Exposition

namespace TptTelemetry.Daemon.MetricsHttp

open TptTelemetry.Lib TptTelemetry.Lib.Text TptTelemetry.Lib.Utf8 TptTelemetry.Lib.Numeral
open TptTelemetry.Lib.TextLines TptTelemetry.Lib.Http TptTelemetry.Lib.Exposition

section Request

/-- What a read into the buffer gives, which has room for 4096 bytes. -/
structure Chunk where
  bytes : Bytes
  nonempty : bytes ≠ []
  fits : bytes.length ≤ 4096
  deriving DecidableEq, Repr

inductive Read
  | ok (chunk : Chunk)
  | eof
  | failed
  deriving DecidableEq, Repr

/-- The loop of `run_metrics` over the reads of one connection. After the last of
them it still waits. -/
def readRequest : Bytes → List Read → Option Bytes
  | _, [] => none
  | req, .eof :: _ => some req
  | req, .failed :: _ => some req
  | req, .ok chunk :: reads =>
    if blankLine <:+: req ++ chunk.bytes ∨ 8192 < (req ++ chunk.bytes).length then
      some (req ++ chunk.bytes)
    else readRequest (req ++ chunk.bytes) reads

theorem length_readRequest {req out : Bytes} {reads : List Read} (hreq : req.length ≤ 8192)
    (h : readRequest req reads = some out) : out.length ≤ 8192 + 4096 := by
  induction reads generalizing req with
  | nil => cases h
  | cons r reads ih =>
    cases r with
    | eof =>
      cases h
      omega
    | failed =>
      cases h
      omega
    | ok chunk =>
      have hfits := chunk.fits
      have hlen : (req ++ chunk.bytes).length ≤ 8192 + 4096 := by
        rw [List.length_append]
        omega
      rw [readRequest] at h
      split at h
      · cases h
        exact hlen
      · next hgo =>
        exact ih (by omega) h

/-- A head is read to its end, and no further, however it is cut. -/
theorem readRequest_head {lines : List Bytes} (hlines : ∀ l ∈ lines, IsLine l) (hne : lines ≠ [])
    (hlen : (writeHead lines).length ≤ 8192) {chunks : List Chunk} {req : Bytes}
    (hchunks : chunks ≠ []) (hcut : req ++ chunks.flatMap Chunk.bytes = writeHead lines)
    (reads : List Read) : readRequest req (chunks.map .ok ++ reads) = some (writeHead lines) := by
  induction chunks generalizing req with
  | nil => exact absurd rfl hchunks
  | cons chunk chunks ih =>
    rw [List.flatMap_cons, ← List.append_assoc] at hcut
    rw [List.map_cons, List.cons_append, readRequest]
    by_cases hlast : chunks = []
    · rw [hlast, List.flatMap_nil, List.append_nil] at hcut
      rw [hcut, if_pos (Or.inl (blankLine_writeHead hne))]
    · -- another chunk is to come, so the last byte of the head is not yet there
      obtain ⟨next, more, rfl⟩ := List.exists_cons_of_ne_nil hlast
      have hrest : (next :: more).flatMap Chunk.bytes ≠ [] := by
        simp [next.nonempty]
      have hopen : ¬ blankLine <:+: req ++ chunk.bytes := by
        intro h
        refine not_blankLine hlines (h.trans ?_)
        rw [← hcut, List.dropLast_append_of_ne_nil hrest]
        exact (List.prefix_append _ _).isInfix
      have hshort : ¬ 8192 < (req ++ chunk.bytes).length := by
        have hle : (req ++ chunk.bytes).length ≤ (writeHead lines).length := by
          rw [← hcut]
          exact (List.prefix_append _ _).length_le
        omega
      rw [if_neg (by simp only [hopen, hshort, or_self, not_false_eq_true])]
      exact ih hlast hcut

def splitWhitespace (s : Str) : List Str := (s.splitOnP isWhitespace).filter (· ≠ [])

def extractPath (req : Bytes) : Option Str := do
  let s ← fromUtf8 req
  let line ← (lines s).head?
  match splitWhitespace line with
  | method :: parts => if method = "GET".toList then parts.head? else none
  | [] => none

def IsWord (w : Str) : Prop := w ≠ [] ∧ ∀ c ∈ w, isWhitespace c = false

theorem isWord_iff {w : Str} : IsWord w ↔ w ≠ [] ∧ w.any isWhitespace = false := by
  rw [IsWord, List.any_eq_false]
  simp

def requestLine (path version : Str) : Str := "GET".toList ++ ' ' :: (path ++ ' ' :: version)

theorem splitWhitespace_requestLine {path version : Str} (hpath : IsWord path) :
    splitWhitespace (requestLine path version) =
      "GET".toList :: path :: splitWhitespace version := by
  have hget : IsWord "GET".toList := isWord_iff.mpr ⟨by decide, by decide⟩
  rw [splitWhitespace, requestLine,
    List.splitOnP_append_cons_of_forall_mem hget.2 ' ' (by decide),
    List.splitOnP_append_cons_of_forall_mem hpath.2 ' ' (by decide),
    List.filter_cons_of_pos (by decide), List.filter_cons_of_pos (by simpa using hpath.1)]
  rfl

theorem head?_lines_crlf {l : Str} (hl : '\n' ∉ l) (rest : Str) :
    (lines (l ++ ['\r', '\n'] ++ rest)).head? = some l := by
  have happ : l ++ ['\r', '\n'] ++ rest = (l ++ ['\r']) ++ '\n' :: rest := by simp
  rw [happ, lines_append (by simp [hl])]
  simp [TextLines.stripCr]

theorem writeHead_encode (lines : List Str) : writeHead (lines.map encode) =
    encode (lines.flatMap (· ++ ['\r', '\n']) ++ ['\r', '\n']) := by
  have hcrlf : encode ['\r', '\n'] = crlf := by decide
  rw [writeHead, encode_append, hcrlf, List.flatMap_map]
  congr 1
  induction lines with
  | nil => rfl
  | cons l lines ih =>
    rw [List.flatMap_cons, List.flatMap_cons, ih, encode_append, encode_append, hcrlf]

theorem extractPath_get {path version : Str} {lines : List Str} (hpath : IsWord path)
    (hline : '\n' ∉ requestLine path version) :
    extractPath (writeHead ((requestLine path version :: lines).map encode)) = some path := by
  rw [writeHead_encode, extractPath, fromUtf8_text, Option.bind_eq_bind, Option.bind_some,
    List.flatMap_cons, List.append_assoc, head?_lines_crlf hline, Option.bind_some,
    splitWhitespace_requestLine hpath]
  rfl

end Request

section Response

structure Counters where
  received : UInt64
  exported : UInt64
  errors : UInt64
  delivered : UInt64
  droppedFull : UInt64
  droppedDisconnected : UInt64
  kernelOverflow : UInt64
  rejectedConnections : UInt64
  deriving DecidableEq, Repr

def metric (name help : Str) (value : UInt64) : Str :=
  "# HELP ".toList ++ name ++ [' '] ++ help ++ "\n# TYPE ".toList ++ name ++ " counter\n".toList ++
    name ++ [' '] ++ decimal value.toNat ++ ['\n']

def table (c : Counters) : List Metric :=
  [⟨"tpt_daemon_received_total".toList, "Syslog messages received by the daemon".toList, c.received⟩,
    ⟨"tpt_daemon_exported_total".toList, "Records exported to OTLP".toList, c.exported⟩,
    ⟨"tpt_daemon_export_errors_total".toList, "OTLP export errors".toList, c.errors⟩,
    ⟨"tpt_daemon_delivered_total".toList,
      "Messages delivered into the syslog ring buffer".toList, c.delivered⟩,
    ⟨"tpt_daemon_dropped_full_total".toList,
      "Ring-buffer-full drops (backpressure)".toList, c.droppedFull⟩,
    ⟨"tpt_daemon_dropped_disconnected_total".toList,
      "Consumer-disconnected drops".toList, c.droppedDisconnected⟩,
    ⟨"tpt_daemon_kernel_overflow_total".toList,
      "Kernel RXQ overflows (Linux SO_RXQ_OVFL)".toList, c.kernelOverflow⟩,
    ⟨"tpt_daemon_rejected_connections_total".toList,
      "TCP connections rejected at the max_connections cap".toList, c.rejectedConnections⟩]

def renderMetrics (c : Counters) : Str := (table c).flatMap (fun m => metric m.name m.help m.value)

def answer (path : Option Str) (c : Counters) : Str × Str :=
  if path = some "/healthz".toList then ("200 OK".toList, "ok\n".toList)
  else if path = some "/metrics".toList then ("200 OK".toList, renderMetrics c)
  else ("404 Not Found".toList, "not found\n".toList)

def respond (status body : Str) : Bytes :=
  encode ("HTTP/1.1 ".toList ++ status ++
    "\r\nContent-Type: text/plain; version=0.0.4\r\nContent-Length: ".toList ++
    decimal (byteLen body) ++ "\r\nConnection: close\r\n\r\n".toList ++ body)

def serve (reads : List Read) (c : Counters) : Option Bytes :=
  (readRequest [] reads).map (fun req =>
    respond (answer (extractPath req) c).1 (answer (extractPath req) c).2)

/-- A scraper looks every counter up by its name. -/
def readCounters (text : Str) : Option Counters := do
  let received ← sample "tpt_daemon_received_total".toList text
  let exported ← sample "tpt_daemon_exported_total".toList text
  let errors ← sample "tpt_daemon_export_errors_total".toList text
  let delivered ← sample "tpt_daemon_delivered_total".toList text
  let droppedFull ← sample "tpt_daemon_dropped_full_total".toList text
  let droppedDisconnected ← sample "tpt_daemon_dropped_disconnected_total".toList text
  let kernelOverflow ← sample "tpt_daemon_kernel_overflow_total".toList text
  let rejectedConnections ← sample "tpt_daemon_rejected_connections_total".toList text
  some ⟨received, exported, errors, delivered, droppedFull, droppedDisconnected, kernelOverflow,
    rejectedConnections⟩

theorem texts_table (c : Counters) : ∀ m ∈ table c, WellFormed m.name m.help ∧ Ascii m.name ∧
    Ascii m.help ∧ 3 * m.name.length + m.help.length + 60 ≤ 300 := by
  have hall : ∀ p ∈ (table ⟨0, 0, 0, 0, 0, 0, 0, 0⟩).map (fun m => (m.name, m.help)),
      WellFormed p.1 p.2 ∧ Ascii p.1 ∧ Ascii p.2 ∧ 3 * p.1.length + p.2.length + 60 ≤ 300 := by
    decide +kernel
  intro m hm
  exact hall (m.name, m.help) (List.mem_map_of_mem (f := fun m => (m.name, m.help)) hm)

theorem nodup_table (c : Counters) : ((table c).map Metric.name).Nodup := by
  have hnames : (table c).map Metric.name =
      (table ⟨0, 0, 0, 0, 0, 0, 0, 0⟩).map Metric.name := by
    simp only [table, List.map_cons, List.map_nil]
  rw [hnames]
  decide +kernel

theorem metric_lines (m : Metric) :
    metric m.name m.help m.value = m.lines.flatMap (· ++ ['\n']) := by
  have htype : "\n# TYPE ".toList = '\n' :: "# TYPE ".toList := rfl
  have hcounter : " counter\n".toList = " counter".toList ++ ['\n'] := rfl
  unfold metric Metric.lines
  rw [htype, hcounter]
  generalize "# HELP ".toList = help
  generalize "# TYPE ".toList = type
  generalize " counter".toList = counter
  generalize decimal m.value.toNat = digits
  simp

theorem renderMetrics_eq (c : Counters) : renderMetrics c = expose (table c) := by
  rw [renderMetrics, expose, List.flatMap_assoc]
  congr 1
  funext m
  exact metric_lines m

theorem sample_renderMetrics {c : Counters} {m : Metric} (hm : m ∈ table c) :
    sample m.name (renderMetrics c) = some m.value := by
  rw [renderMetrics_eq]
  exact sample_expose (fun m hm => (texts_table c m hm).1) (nodup_table c) hm

theorem readCounters_renderMetrics (c : Counters) : readCounters (renderMetrics c) = some c := by
  have hall : ∀ m ∈ table c, sample m.name (renderMetrics c) = some m.value :=
    fun m hm => sample_renderMetrics hm
  simp only [table, List.forall_mem_cons] at hall
  obtain ⟨h1, h2, h3, h4, h5, h6, h7, h8, -⟩ := hall
  simp only [readCounters, h1, h2, h3, h4, h5, h6, h7, h8, Option.bind_eq_bind, Option.bind_some]

theorem length_decimal (n : UInt64) : (decimal n.toNat).length ≤ 20 := by
  have hlt : n.toNat < 2 ^ 64 := n.toNat_lt
  exact (Nat.length_toDigits_le_iff (by decide) (by decide)).mpr (by omega)

theorem length_metric (name help : Str) (value : UInt64) :
    (metric name help value).length ≤ 3 * name.length + help.length + 60 := by
  have h := length_decimal value
  have hhelp : "# HELP ".toList.length = 7 := rfl
  have htype : "\n# TYPE ".toList.length = 8 := rfl
  have hcounter : " counter\n".toList.length = 9 := rfl
  unfold metric
  generalize decimal value.toNat = digits at h ⊢
  simp only [List.length_append, List.length_singleton, hhelp, htype, hcounter]
  omega

theorem length_renderMetrics (c : Counters) : (renderMetrics c).length ≤ 8 * 300 := by
  have hmetric : ∀ n ∈ (table c).map (fun m => (metric m.name m.help m.value).length), n ≤ 300 := by
    intro n hn
    obtain ⟨m, hm, rfl⟩ := List.mem_map.mp hn
    exact (length_metric m.name m.help m.value).trans (texts_table c m hm).2.2.2
  rw [renderMetrics, List.length_flatMap]
  exact List.sum_le_card_nsmul _ 300 hmetric

theorem ascii_renderMetrics (c : Counters) : Ascii (renderMetrics c) := by
  intro ch hch
  obtain ⟨m, hm, hch⟩ := List.mem_flatMap.mp hch
  obtain ⟨-, hname, hhelp, -⟩ := texts_table c m hm
  obtain ⟨hmark, htype, hcounter, hblank, hend⟩ : Ascii "# HELP ".toList ∧
      Ascii "\n# TYPE ".toList ∧ Ascii " counter\n".toList ∧ Ascii [' '] ∧ Ascii ['\n'] := by
    decide
  have hmetric : Ascii (metric m.name m.help m.value) := by
    have hdigits := ascii_decimal m.value.toNat
    unfold metric
    generalize "# HELP ".toList = mark at hmark ⊢
    generalize "\n# TYPE ".toList = type at htype ⊢
    generalize " counter\n".toList = counter at hcounter ⊢
    generalize decimal m.value.toNat = digits at hdigits ⊢
    simp only [ascii_append, hname, hhelp, hmark, htype, hcounter, hblank, hend, hdigits, and_self]
  exact hmetric ch hch

def response (status body : Str) : Response :=
  { status
    headers := [("Content-Type".toList, "text/plain; version=0.0.4".toList),
      ("Content-Length".toList, decimal (byteLen body)), ("Connection".toList, "close".toList)]
    body := encode body }

theorem respond_eq (status body : Str) : respond status body = (response status body).write := by
  have hlines : respond status body = encode ((response status body).lines.flatMap (· ++ ['\r', '\n'])
      ++ ['\r', '\n'] ++ body) := by
    simp [respond, response, Response.lines]
  rw [hlines, encode_append, ← writeHead_encode]
  rfl

def fetch (s : Bytes) : Option (Str × Str) := do
  let (status, body) ← readResponse s
  let text ← fromUtf8 body
  some (status, text)

theorem fetch_respond {status body : Str} (hstatus : '\r' ∉ status ∧ '\n' ∉ status)
    (hbody : byteLen body < 2 ^ 64) (rest : Bytes) :
    fetch (respond status body ++ rest) = some (status, body) := by
  have hnumber : '\r' ∉ decimal (byteLen body) ∧ '\n' ∉ decimal (byteLen body) :=
    ⟨fun h => absurd (isDigit_decimal h) (by decide), fun h => absurd (isDigit_decimal h) (by decide)⟩
  have hlines : ∀ l ∈ (response status body).lines, IsText l := by
    have hfirst : IsText ("HTTP/1.1 ".toList ++ status) :=
      ⟨by simp, by simp [hstatus.1], by simp [hstatus.2]⟩
    have hsecond : IsText ("Content-Length".toList ++ ": ".toList ++ decimal (byteLen body)) :=
      ⟨by simp, by simp [hnumber.1], by simp [hnumber.2]⟩
    simp only [Response.lines, response, List.map_cons, List.map_nil, List.forall_mem_cons]
    exact ⟨hfirst, ⟨by decide, by decide, by decide⟩, hsecond, ⟨by decide, by decide, by decide⟩,
      by simp⟩
  have hlength : (response status body).lines.findSome? (stripPrefix "Content-Length: ".toList) =
      some (decimal (response status body).body.length) := by
    have hfirst : stripPrefix "Content-Length: ".toList ("HTTP/1.1 ".toList ++ status) = none := rfl
    have hsecond : stripPrefix "Content-Length: ".toList
        ("Content-Type".toList ++ ": ".toList ++ "text/plain; version=0.0.4".toList) = none := rfl
    have hthird : stripPrefix "Content-Length: ".toList
        ("Content-Length".toList ++ ": ".toList ++ decimal (byteLen body)) =
          some (decimal (byteLen body)) := stripPrefix_append _ _
    simp only [Response.lines, response, List.map_cons, List.findSome?_cons, hfirst, hsecond, hthird,
      length_encode]
  have hread := readResponse_write hlines hlength (by rwa [response, length_encode]) rest
  rw [respond_eq, fetch, hread, Option.bind_eq_bind, Option.bind_some]
  simp only [response, fromUtf8_text, Option.bind_eq_bind, Option.bind_some]

theorem fetch_answer (path : Option Str) (c : Counters) (rest : Bytes) :
    fetch (respond (answer path c).1 (answer path c).2 ++ rest) = some (answer path c) := by
  have hmetrics : byteLen (renderMetrics c) < 2 ^ 64 := by
    have hlen := length_renderMetrics c
    rw [byteLen_ascii (ascii_renderMetrics c)]
    omega
  have hok : '\r' ∉ "200 OK".toList ∧ '\n' ∉ "200 OK".toList := by decide
  have hanswer : ('\r' ∉ (answer path c).1 ∧ '\n' ∉ (answer path c).1) ∧
      byteLen (answer path c).2 < 2 ^ 64 := by
    rw [answer]
    split
    · exact ⟨hok, by decide⟩
    · split
      · exact ⟨hok, hmetrics⟩
      · exact ⟨by decide, by decide⟩
  exact fetch_respond hanswer.1 hanswer.2 rest

/-- A request is answered the same however its bytes are cut. A client finds the
answer in what it receives, wherever the connection ends, and in the answer for
the metrics every counter. -/
theorem request_answered {path version : Str} {lines : List Str} (hpath : IsWord path)
    (hversion : '\r' ∉ version ∧ '\n' ∉ version) (hlines : ∀ l ∈ lines, IsText l)
    {chunks : List Chunk}
    (hcut : chunks.flatMap Chunk.bytes =
      writeHead ((requestLine path version :: lines).map encode))
    (hlen : (chunks.flatMap Chunk.bytes).length ≤ 8192) (reads : List Read) (c : Counters) :
    ∃ out, serve (chunks.map .ok ++ reads) c = some out ∧
      (∀ rest, fetch (out ++ rest) = some (answer (some path) c)) ∧
      (path = "/metrics".toList → readCounters (answer (some path) c).2 = some c) := by
  have hword : ∀ ch, isWhitespace ch = true → ch ∉ path :=
    fun ch hch hm => Bool.false_ne_true ((hpath.2 ch hm).symm.trans hch)
  have hrequest : IsText (requestLine path version) := by
    have hcr : '\r' ∉ path := hword '\r' (by decide)
    have hlf : '\n' ∉ path := hword '\n' (by decide)
    exact ⟨by simp [requestLine], by simp [requestLine, hcr, hversion.1],
      by simp [requestLine, hlf, hversion.2]⟩
  have hall : ∀ l ∈ (requestLine path version :: lines).map encode, IsLine l := by
    intro m hm
    obtain ⟨l, hl, rfl⟩ := List.mem_map.mp hm
    exact isLine_encode (List.forall_mem_cons.mpr ⟨hrequest, hlines⟩ l hl)
  have hchunks : chunks ≠ [] := by
    rintro rfl
    simp [writeHead, crlf] at hcut
  have hread : readRequest [] (chunks.map .ok ++ reads) =
      some (writeHead ((requestLine path version :: lines).map encode)) :=
    readRequest_head hall (by simp) (by rwa [← hcut]) hchunks hcut reads
  refine ⟨_, by rw [serve, hread, Option.map_some], fun rest => ?_, ?_⟩
  · rw [extractPath_get hpath hrequest.2.2]
    exact fetch_answer (some path) c rest
  · rintro rfl
    have hanswer : answer (some "/metrics".toList) c = ("200 OK".toList, renderMetrics c) := rfl
    rw [hanswer]
    exact readCounters_renderMetrics c

/-- The request `GET /metrics HTTP/1.1`, cut behind the method. -/
def cutRequest : List Chunk :=
  [⟨encode "GET".toList, by decide, by decide⟩,
    ⟨encode " /metrics HTTP/1.1\r\n\r\n".toList, by decide, by decide⟩]

theorem request_answered_cut :
    ∃ out, serve (cutRequest.map .ok ++ []) ⟨3, 2, 1, 3, 0, 0, 0, 0⟩ = some out ∧
      (∀ rest, fetch (out ++ rest) =
        some (answer (some "/metrics".toList) ⟨3, 2, 1, 3, 0, 0, 0, 0⟩)) ∧
      ("/metrics".toList = "/metrics".toList →
        readCounters (answer (some "/metrics".toList) ⟨3, 2, 1, 3, 0, 0, 0, 0⟩).2 =
          some ⟨3, 2, 1, 3, 0, 0, 0, 0⟩) := by
  have hcut : cutRequest.flatMap Chunk.bytes =
      writeHead ([requestLine "/metrics".toList "HTTP/1.1".toList].map encode) := by
    decide +kernel
  exact request_answered (isWord_iff.mpr ⟨by decide, by decide⟩) (by decide) (by simp) hcut
    (by decide +kernel) [] _

end Response

end TptTelemetry.Daemon.MetricsHttp
