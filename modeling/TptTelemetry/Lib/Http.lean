import TptTelemetry.Lib.Numeral
import TptTelemetry.Lib.TextLines

namespace TptTelemetry.Lib.Http

open TptTelemetry.Lib.Text TptTelemetry.Lib.Utf8 TptTelemetry.Lib.Numeral TptTelemetry.Lib.TextLines

section Heads

def crlf : Bytes := [13, 10]

def blankLine : Bytes := [13, 10, 13, 10]

def IsLine (l : Bytes) : Prop := l ≠ [] ∧ 13 ∉ l ∧ 10 ∉ l

def writeHead (lines : List Bytes) : Bytes := lines.flatMap (· ++ crlf) ++ crlf

def stripCr (l : Bytes) : Bytes := if l.getLast? = some 13 then l.dropLast else l

def readHead : Bytes → Bytes → Option (List Bytes × Bytes)
  | _, [] => none
  | line, b :: rest =>
    if b = 10 then
      if stripCr line = [] then some ([], rest)
      else (readHead [] rest).map (fun p => (stripCr line :: p.1, p.2))
    else readHead (line ++ [b]) rest

theorem readHead_skip {l : Bytes} (hl : 10 ∉ l) (line rest : Bytes) :
    readHead line (l ++ rest) = readHead (line ++ l) rest := by
  induction l generalizing line with
  | nil => simp
  | cons b l ih =>
    obtain ⟨hb, hl⟩ : b ≠ 10 ∧ 10 ∉ l := by simpa [eq_comm] using hl
    rw [List.cons_append, readHead, if_neg hb, ih hl, List.append_assoc, List.singleton_append]

theorem stripCr_append (l : Bytes) : stripCr (l ++ [13]) = l := by
  simp [stripCr]

theorem readHead_line {l : Bytes} (hl : IsLine l) (rest : Bytes) :
    readHead [] (l ++ crlf ++ rest) = (readHead [] rest).map (fun p => (l :: p.1, p.2)) := by
  have hskip : 10 ∉ l ++ [13] := by simp [hl.2.2]
  have happ : l ++ crlf ++ rest = l ++ [13] ++ 10 :: rest := by simp [crlf]
  rw [happ, readHead_skip hskip, List.nil_append, readHead, if_pos rfl, stripCr_append, if_neg hl.1]

/-- The lines are read back, and nothing behind the empty line is looked at. -/
theorem readHead_writeHead {lines : List Bytes} (hlines : ∀ l ∈ lines, IsLine l) (rest : Bytes) :
    readHead [] (writeHead lines ++ rest) = some (lines, rest) := by
  induction lines with
  | nil => simp [writeHead, crlf, readHead, stripCr]
  | cons l lines ih =>
    obtain ⟨hl, hlines⟩ := List.forall_mem_cons.mp hlines
    have happ : writeHead (l :: lines) ++ rest = l ++ crlf ++ (writeHead lines ++ rest) := by
      simp [writeHead]
    rw [happ, readHead_line hl, ih hlines, Option.map_some]

theorem mem_split_append {d : UInt8} {x r : Bytes} (hx : x ∈ (Lines.split d r).1) (p : Bytes) :
    x ∈ (Lines.split d (p ++ d :: r)).1 := by
  induction p using Lines.pieces_induction d with
  | hlast t ht =>
    rw [Lines.split_append ht]
    exact List.mem_cons_of_mem _ hx
  | hpiece a b ha ih =>
    rw [List.append_assoc, List.cons_append, Lines.split_append ha]
    exact List.mem_cons_of_mem _ ih

theorem mem_split_of_blankLine {s : Bytes} (h : blankLine <:+: s) : [13] ∈ (Lines.split 10 s).1 := by
  obtain ⟨p, q, rfl⟩ := h
  have happ : p ++ blankLine ++ q = p ++ [13] ++ 10 :: ([13] ++ 10 :: q) := by simp [blankLine]
  rw [happ]
  refine mem_split_append ?_ _
  rw [Lines.split_append (by decide)]
  exact List.mem_cons_self

theorem not_blankLine {lines : List Bytes} (hlines : ∀ l ∈ lines, IsLine l) :
    ¬ blankLine <:+: (writeHead lines).dropLast := by
  intro h
  have hdrop : (writeHead lines).dropLast = (lines.map (· ++ [13])).flatMap (· ++ [10]) ++ [13] := by
    rw [writeHead, crlf, List.dropLast_append_of_ne_nil (by simp), List.flatMap_map]
    simp
  have hnone : ∀ l ∈ lines.map (· ++ [13]), 10 ∉ l := by
    intro m hm
    obtain ⟨l, hl, rfl⟩ := List.mem_map.mp hm
    simp [(hlines l hl).2.2]
  have hmem := mem_split_of_blankLine h
  rw [hdrop, Lines.split_flatMap hnone (by decide)] at hmem
  obtain ⟨l, hl, he⟩ := List.mem_map.mp hmem
  exact (hlines l hl).1 (by simpa using he)

theorem blankLine_writeHead {lines : List Bytes} (hne : lines ≠ []) :
    blankLine <:+: writeHead lines := by
  obtain ⟨front, l, rfl⟩ := (List.eq_nil_or_concat lines).resolve_left hne
  exact ⟨front.flatMap (· ++ crlf) ++ l, [], by simp [writeHead, crlf, blankLine]⟩

end Heads

section Responses

structure Response where
  status : Str
  headers : List (Str × Str)
  body : Bytes
  deriving DecidableEq, Repr

def Response.lines (r : Response) : List Str :=
  ("HTTP/1.1 ".toList ++ r.status) :: r.headers.map (fun h => h.1 ++ ": ".toList ++ h.2)

def Response.write (r : Response) : Bytes := writeHead (r.lines.map encode) ++ r.body

/-- A client: the status, and as much of the body as the head says. -/
def readResponse (s : Bytes) : Option (Str × Bytes) := do
  let (lines, rest) ← readHead [] s
  let lines ← lines.mapM fromUtf8
  let status ← lines.head?.bind (stripPrefix "HTTP/1.1 ".toList)
  let length ← lines.findSome? (stripPrefix "Content-Length: ".toList)
  let n ← parseUnsigned 10 (2 ^ 64) length
  if n ≤ rest.length then some (status, rest.take n) else none

def IsText (l : Str) : Prop := l ≠ [] ∧ '\r' ∉ l ∧ '\n' ∉ l

theorem isLine_encode {l : Str} (h : IsText l) : IsLine (encode l) := by
  refine ⟨fun he => h.1 ?_, fun hm => h.2.1 ?_, fun hm => h.2.2 ?_⟩
  · rw [← byteLen_eq_zero, ← length_encode, he]
    rfl
  · exact (mem_encode_iff (by decide) l).mp hm
  · exact (mem_encode_iff (by decide) l).mp hm

theorem mapM_fromUtf8 (lines : List Str) : (lines.map encode).mapM fromUtf8 = some lines := by
  induction lines with
  | nil => rfl
  | cons l lines ih =>
    rw [List.map_cons, List.mapM_cons, fromUtf8_text, ih]
    rfl

theorem readResponse_write {r : Response} (hlines : ∀ l ∈ r.lines, IsText l)
    (hlength : r.lines.findSome? (stripPrefix "Content-Length: ".toList) =
      some (decimal r.body.length))
    (hbound : r.body.length < 2 ^ 64) (rest : Bytes) :
    readResponse (r.write ++ rest) = some (r.status, r.body) := by
  have hhead : readHead [] (r.write ++ rest) = some (r.lines.map encode, r.body ++ rest) := by
    rw [Response.write, List.append_assoc]
    refine readHead_writeHead (fun m hm => ?_) _
    obtain ⟨l, hl, rfl⟩ := List.mem_map.mp hm
    exact isLine_encode (hlines l hl)
  have hstatus : r.lines.head?.bind (stripPrefix "HTTP/1.1 ".toList) = some r.status := by
    rw [Response.lines, List.head?_cons, Option.bind_some]
    exact stripPrefix_append _ _
  simp only [readResponse, hhead, Option.bind_eq_bind, Option.bind_some, mapM_fromUtf8, hstatus,
    hlength, parseUnsigned_decimal hbound, List.length_append, Nat.le_add_right, if_true,
    List.take_left]

end Responses

end TptTelemetry.Lib.Http
