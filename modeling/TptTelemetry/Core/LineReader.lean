import TptTelemetry.Core.Stream

namespace TptTelemetry.Core.LineReader

open TptTelemetry.Lib TptTelemetry.Lib.Utf8 TptTelemetry.Core.Stream
open TptTelemetry.Framing.Decoder (LF CR stripCr)

variable {ρ : Type} {R : Reader ρ}

/-- The reader delivers the data in reads of any positive size, with a finite
number of interruptions, and then ends: cleanly, or with an error. -/
inductive Delivers (R : Reader ρ) : ρ → Bytes → Option IoError → Prop
  | intro {r : ρ} {data : Bytes} {fin : Option IoError}
      (hpre : ∀ n bs r', 0 < n → R.read r n = (.ok bs, r') → bs ≠ [] → bs <+: data)
      (hdata : ∀ n bs r', 0 < n → R.read r n = (.ok bs, r') → bs ≠ [] →
        Delivers R r' (data.drop bs.length) fin)
      (hint : ∀ n e r', 0 < n → R.read r n = (.error e, r') → e.kind = .interrupted →
        Delivers R r' data fin)
      (hend : ∀ n r', 0 < n → R.read r n = (.ok [], r') → data = [] ∧ fin = none)
      (herr : ∀ n e r', 0 < n → R.read r n = (.error e, r') → e.kind ≠ .interrupted →
        data = [] ∧ fin = some e) : Delivers R r data fin

def InBounds (s : StreamReader ρ) : Prop := s.start ≤ s.stop ∧ s.stop ≤ s.buf.length

theorem length_unread {s : StreamReader ρ} (h : InBounds s) :
    (unread s).length = s.stop - s.start := by
  rw [unread, List.length_drop, List.length_take, Nat.min_eq_left h.2]

theorem compact_spec {s : StreamReader ρ} (h : InBounds s) :
    InBounds (compact s) ∧ unread (compact s) = unread s ∧ (compact s).start = 0 ∧
      (compact s).stop = (unread s).length ∧ (compact s).buf.length = s.buf.length := by
  have hl := length_unread h
  obtain ⟨h1, h2⟩ := h
  by_cases hs : s.start > 0
  · rw [compact, if_pos hs]
    have hlen : (unread s ++ s.buf.drop (s.stop - s.start)).length = s.buf.length := by
      rw [List.length_append, List.length_drop, hl]
      omega
    refine ⟨⟨Nat.zero_le _, by dsimp only; omega⟩, ?_, rfl, hl.symm, hlen⟩
    rw [unread, List.drop_zero, ← hl, List.take_left]
  · rw [compact, if_neg hs]
    exact ⟨⟨h1, h2⟩, rfl, by omega, by omega, rfl⟩

theorem grow_spec {s : StreamReader ρ} (h : InBounds s) :
    InBounds (grow s) ∧ unread (grow s) = unread s ∧ (grow s).stop < (grow s).buf.length ∧
      (grow s).start = s.start ∧ (grow s).stop = s.stop := by
  obtain ⟨h1, h2⟩ := h
  by_cases hs : s.stop = s.buf.length
  · rw [grow, if_pos hs]
    refine ⟨⟨h1, by simp; omega⟩, ?_, by simp; omega, rfl, rfl⟩
    rw [unread, unread, List.take_append_of_le_length h2]
  · rw [grow, if_neg hs]
    exact ⟨⟨h1, h2⟩, rfl, by omega, rfl, rfl⟩

theorem fill_spec {s : StreamReader ρ} (h : InBounds s) {bs : Bytes}
    (hbs : bs.length ≤ s.buf.length - s.stop) :
    InBounds (fill s bs) ∧ unread (fill s bs) = unread s ++ bs ∧
      (fill s bs).buf.length = s.buf.length := by
  obtain ⟨h1, h2⟩ := h
  have ht : (s.buf.take s.stop).length = s.stop := by rw [List.length_take]; omega
  have hl : (s.buf.take s.stop ++ bs).length = s.stop + bs.length := by
    rw [List.length_append, ht]
  have hbuf : (fill s bs).buf.length = s.buf.length := by
    rw [fill, List.length_append, hl, List.length_drop]
    omega
  refine ⟨⟨Nat.le_trans h1 (Nat.le_add_right _ _), ?_⟩, ?_, hbuf⟩
  · rw [hbuf]
    dsimp only [fill]
    omega
  · rw [unread, fill, ← hl, List.take_left, List.drop_append_of_le_length (by rw [ht]; exact h1)]
    rfl

theorem take_drop_unread {s : StreamReader ρ} {k : Nat} (hk : k ≤ s.stop - s.start) :
    (s.buf.take (s.start + k)).drop s.start = (unread s).take k := by
  rw [unread, List.drop_take, List.drop_take, List.take_take]
  congr 1
  omega

theorem lineStep_line {s : StreamReader ρ} (h : InBounds s) {l rest : Bytes}
    (hu : unread s = l ++ LF :: rest) (hl : LF ∉ l) :
    lineStep R s = .ret (some (stripCr l)) { s with start := s.start + l.length + 1 } := by
  have hlen : l.length + 1 + rest.length = s.stop - s.start := by
    rw [← length_unread h, hu, List.length_append, List.length_cons]
    omega
  have hcr : (s.start + l.length > s.start ∧ s.buf[s.start + l.length - 1]? = some CR) ↔
      l.getLast? = some CR := by
    cases hl' : l.length with
    | zero => simp [List.length_eq_zero_iff.mp hl']
    | succ n =>
      have hi : s.buf[s.start + (n + 1) - 1]? = l[n]? := by
        have h1 : (unread s)[n]? = s.buf[s.start + n]? := by
          rw [unread, List.getElem?_drop, List.getElem?_take_of_lt (by omega)]
        have h2 : (l ++ LF :: rest)[n]? = l[n]? := List.getElem?_append_left (by omega)
        rw [show s.start + (n + 1) - 1 = s.start + n by omega, ← h1, hu, h2]
      have hlast : l.getLast? = l[n]? := by rw [List.getLast?_eq_getElem?, hl', Nat.add_sub_cancel]
      rw [hi, hlast]
      exact ⟨fun h => h.2, fun h => ⟨by omega, h⟩⟩
  have htake : ∀ k, k ≤ l.length → (unread s).take k = l.take k := by
    intro k hk
    rw [hu, List.take_append_of_le_length hk]
  simp only [lineStep, hu, Lines.idxOf?_append hl]
  congr 2
  by_cases hc : l.getLast? = some CR
  · have hpos : 0 < l.length := by
      cases l with
      | nil => cases hc
      | cons b l => simp
    rw [if_pos (hcr.mpr hc), Nat.add_sub_assoc hpos, take_drop_unread (by omega),
      htake _ (Nat.sub_le _ _), stripCr, if_pos hc, List.dropLast_eq_take]
  · rw [if_neg (mt hcr.mp hc), take_drop_unread (by omega), htake _ le_rfl, List.take_length,
      stripCr, if_neg hc]

/-- Before the end of input: what is unread and what the reader will still
deliver make up `p`. -/
def Pending (R : Reader ρ) (s : StreamReader ρ) (p : Bytes) (fin : Option IoError) : Prop :=
  s.done = false ∧ s.lastError = none ∧ ∃ rest, p = unread s ++ rest ∧ Delivers R s.reader rest fin

/-- After the end of input: `p` is unread, and the error is recorded. -/
def Ended (s : StreamReader ρ) (p : Bytes) (fin : Option IoError) : Prop :=
  s.done = true ∧ s.lastError = fin ∧ unread s = p

def Holds (R : Reader ρ) (s : StreamReader ρ) (p : Bytes) (fin : Option IoError) : Prop :=
  InBounds s ∧ (Pending R s p fin ∨ Ended s p fin)

/-- What one call makes of `p`: the next line, the unterminated rest, or the
end. -/
def Answers (R : Reader ρ) (s : StreamReader ρ) (p : Bytes) (fin : Option IoError) : Prop :=
  ∃ fuel s', s'.maxLineLen = s.maxLineLen ∧
    ((∃ l q, p = l ++ LF :: q ∧ LF ∉ l ∧ nextLine R fuel s = some (some (stripCr l), s') ∧
        Holds R s' q fin) ∨
      (LF ∉ p ∧ p ≠ [] ∧ nextLine R fuel s = some (some p, s') ∧ InBounds s' ∧ Ended s' [] fin) ∨
      (p = [] ∧ nextLine R fuel s = some (none, s') ∧ InBounds s' ∧ Ended s' [] fin))

theorem unread_advance {s : StreamReader ρ} (h : InBounds s) {l rest : Bytes}
    (hu : unread s = l ++ LF :: rest) :
    InBounds { s with start := s.start + l.length + 1 } ∧
      unread { s with start := s.start + l.length + 1 } = rest := by
  have hlen := length_unread h
  rw [hu, List.length_append, List.length_cons] at hlen
  obtain ⟨h1, h2⟩ := h
  refine ⟨⟨by dsimp only; omega, h2⟩, ?_⟩
  have hd : unread { s with start := s.start + l.length + 1 } = (unread s).drop (l.length + 1) := by
    rw [unread, unread, List.drop_drop, Nat.add_assoc]
  rw [hd, hu, ← List.drop_drop, List.drop_left, List.drop_one, List.tail_cons]

theorem nextLine_one {s s' : StreamReader ρ} {line : Option Bytes}
    (h : lineStep R s = .ret line s') : nextLine R 1 s = some (line, s') := by
  simp only [nextLine, h]

theorem answers_line {s : StreamReader ρ} {p : Bytes} {fin : Option IoError} (h : Holds R s p fin)
    (hl : LF ∈ unread s) : Answers R s p fin := by
  obtain ⟨l, r, hu, hn⟩ := List.eq_append_cons_of_mem hl
  obtain ⟨hb, hs⟩ := h
  obtain ⟨hb', hu'⟩ := unread_advance hb hu
  refine ⟨1, { s with start := s.start + l.length + 1 }, rfl, Or.inl ?_⟩
  have hret := nextLine_one (lineStep_line (R := R) hb hu hn)
  obtain ⟨hd, he, rest, rfl, hdel⟩ | ⟨hd, he, rfl⟩ := hs
  · exact ⟨l, r ++ rest, by simp [hu], hn, hret, hb', Or.inl ⟨hd, he, rest, by rw [hu'], hdel⟩⟩
  · exact ⟨l, r, hu, hn, hret, hb', Or.inr ⟨hd, he, hu'⟩⟩

theorem answers_ended {s : StreamReader ρ} {p : Bytes} {fin : Option IoError} (hb : InBounds s)
    (h : Ended s p fin) (hl : LF ∉ unread s) : Answers R s p fin := by
  obtain ⟨hd, he, rfl⟩ := h
  have hlen := length_unread hb
  by_cases hlt : s.start < s.stop
  · have hstep : lineStep R s = .ret (some (unread s)) { s with start := s.stop } := by
      simp only [lineStep, List.idxOf?_eq_none_iff.mpr hl, hd, if_true, hlt]
    have hne : unread s ≠ [] := by
      intro h
      rw [h, List.length_nil] at hlen
      omega
    refine ⟨1, { s with start := s.stop }, rfl, Or.inr (Or.inl ⟨hl, hne, nextLine_one hstep, ?_⟩)⟩
    refine ⟨⟨le_rfl, hb.2⟩, hd, he, ?_⟩
    rw [unread, List.drop_eq_nil_of_le]
    rw [List.length_take]
    exact Nat.min_le_left _ _
  · have hstep : lineStep R s = .ret none s := by
      simp only [lineStep, List.idxOf?_eq_none_iff.mpr hl, hd, if_true, hlt, if_false]
    have hnil : unread s = [] := by
      apply List.eq_nil_of_length_eq_zero
      omega
    exact ⟨1, s, rfl, Or.inr (Or.inr ⟨hnil, nextLine_one hstep, hb, hd, he, hnil⟩)⟩

theorem answers_cont {s s' : StreamReader ρ} {p : Bytes} {fin : Option IoError}
    (hs : lineStep R s = .cont s') (hm : s'.maxLineLen = s.maxLineLen) (h : Answers R s' p fin) :
    Answers R s p fin := by
  obtain ⟨fuel, t, ht, h⟩ := h
  have hn : nextLine R (fuel + 1) s = nextLine R fuel s' := by simp only [nextLine, hs]
  refine ⟨fuel + 1, t, ht.trans hm, ?_⟩
  rw [hn]
  exact h

/-- Every line of `p`, with its CR, and the unterminated rest fit the ceiling. -/
def LinesFit (p : Bytes) (m : Nat) : Prop :=
  (∀ l ∈ (Lines.split LF p).1, l.length ≤ m) ∧ (Lines.split LF p).2.length ≤ m

instance (p : Bytes) (m : Nat) : Decidable (LinesFit p m) :=
  inferInstanceAs (Decidable ((∀ l ∈ (Lines.split LF p).1, l.length ≤ m) ∧ _))

theorem linesFit_of_not_mem {u rest : Bytes} {m : Nat} (hu : LF ∉ u) (h : LinesFit (u ++ rest) m) :
    u.length ≤ m := by
  by_cases hr : LF ∈ rest
  · obtain ⟨a, b, rfl, ha⟩ := List.eq_append_cons_of_mem hr
    have hua : LF ∉ u ++ a := by simp [hu, ha]
    rw [← List.append_assoc, LinesFit, Lines.split_append hua] at h
    have hl := h.1 (u ++ a) (by simp)
    rw [List.length_append] at hl
    omega
  · have hur : LF ∉ u ++ rest := by simp [hu, hr]
    rw [LinesFit, Lines.split_of_not_mem hur] at h
    have hl := h.2
    rw [List.length_append] at hl
    omega

theorem room_spec {s : StreamReader ρ} (h : InBounds s) :
    InBounds (grow (compact s)) ∧ unread (grow (compact s)) = unread s ∧
      0 < (grow (compact s)).buf.length - (grow (compact s)).stop := by
  obtain ⟨hc, hu, -⟩ := compact_spec h
  obtain ⟨hg, hu', hlt, -⟩ := grow_spec hc
  exact ⟨hg, hu'.trans hu, by omega⟩

theorem room_frame (s : StreamReader ρ) :
    (grow (compact s)).reader = s.reader ∧ (grow (compact s)).done = s.done ∧
      (grow (compact s)).lastError = s.lastError ∧
      (grow (compact s)).maxLineLen = s.maxLineLen := by
  unfold grow compact
  split <;> split <;> exact ⟨rfl, rfl, rfl, rfl⟩

/-- With no line to hand out, an open reader that is within the ceiling reads
into the room behind the unread region. -/
theorem lineStep_read {s : StreamReader ρ} (hb : InBounds s) (hl : LF ∉ unread s)
    (hd : s.done = false) (hm : (unread s).length ≤ s.maxLineLen) :
    lineStep R s = .cont (absorb (grow (compact s)) (R.read s.reader
      ((grow (compact s)).buf.length - (grow (compact s)).stop))) := by
  rw [length_unread hb] at hm
  simp only [lineStep, List.idxOf?_eq_none_iff.mpr hl, hd, Nat.not_lt.mpr hm, if_false,
    Bool.false_eq_true, (room_frame s).1]

theorem answers_of_not_mem {s : StreamReader ρ} {p : Bytes} {fin : Option IoError} (hb : InBounds s)
    (hd : s.done = false) (hl : LF ∉ unread s) (hm : (unread s).length ≤ s.maxLineLen)
    (h : ∀ x, R.read s.reader ((grow (compact s)).buf.length - (grow (compact s)).stop) = x →
      (absorb (grow (compact s)) x).maxLineLen = s.maxLineLen ∧
        Answers R (absorb (grow (compact s)) x) p fin) : Answers R s p fin := by
  obtain ⟨hx, ha⟩ := h _ rfl
  exact answers_cont (lineStep_read hb hl hd hm) hx ha

/-- Every call on an open reader answers: its reads run down what the reader
delivers, and `p` stays what is left to hand out. -/
theorem answers_open {s : StreamReader ρ} {r : ρ} {p rest : Bytes} {fin : Option IoError}
    (hdel : Delivers R r rest fin) (hr : s.reader = r) (hb : InBounds s) (hd : s.done = false)
    (he : s.lastError = none) (hp : p = unread s ++ rest) (hfit : LinesFit p s.maxLineLen) :
    Answers R s p fin := by
  induction hdel generalizing s with
  | @intro r rest fin hpre hdata hint hend herr ihdata ihint =>
    subst hr
    by_cases hl : LF ∈ unread s
    · exact answers_line ⟨hb, Or.inl ⟨hd, he, rest, hp, .intro hpre hdata hint hend herr⟩⟩ hl
    apply answers_of_not_mem hb hd hl (linesFit_of_not_mem hl (hp ▸ hfit))
    obtain ⟨hg, hu, hpos⟩ := room_spec hb
    obtain ⟨-, hfd, hfe, hfm⟩ := room_frame s
    rw [← hu] at hp hl
    rw [← hfm] at hfit
    rintro ⟨(e | _ | ⟨b, bs⟩), r'⟩ hx
    · by_cases hk : e.kind = .interrupted
      · rw [absorb, if_pos hk]
        exact ⟨hfm, ihint _ _ _ hpos hx hk rfl hg (hfd.trans hd) (hfe.trans he) hp hfit⟩
      · obtain ⟨rfl, rfl⟩ := herr _ _ _ hpos hx hk
        rw [List.append_nil] at hp
        rw [absorb, if_neg hk]
        exact ⟨hfm, answers_ended hg ⟨rfl, rfl, hp.symm⟩ hl⟩
    · obtain ⟨rfl, rfl⟩ := hend _ _ hpos hx
      rw [List.append_nil] at hp
      exact ⟨hfm, answers_ended hg ⟨rfl, hfe.trans he, hp.symm⟩ hl⟩
    · obtain ⟨hf, hfu, -⟩ := fill_spec hg (R.read_le hx)
      obtain ⟨rest', rfl⟩ := hpre _ _ _ hpos hx (by simp)
      have hp' : p = unread (fill (grow (compact s)) (b :: bs)) ++
          (b :: bs ++ rest').drop (b :: bs).length := by
        rw [hp, hfu, List.drop_left, List.append_assoc]
      exact ⟨hfm, ihdata _ _ _ hpos hx (by simp) rfl hf (hfd.trans hd) (hfe.trans he) hp' hfit⟩

theorem answers_of_holds {s : StreamReader ρ} {p : Bytes} {fin : Option IoError}
    (h : Holds R s p fin) (hfit : LinesFit p s.maxLineLen) : Answers R s p fin := by
  obtain ⟨hb, ⟨hd, he, rest, rfl, hdel⟩ | hs⟩ := h
  · exact answers_open hdel rfl hb hd he rfl hfit
  · by_cases hl : LF ∈ unread s
    · exact answers_line ⟨hb, Or.inr hs⟩ hl
    · exact answers_ended hb hs hl

def lines (data : Bytes) : List Bytes :=
  (Lines.split LF data).1.map stripCr ++
    if (Lines.split LF data).2 = [] then [] else [(Lines.split LF data).2]

theorem nextLines_mono {fuel fuel' : Nat} (hle : fuel ≤ fuel') {n : Nat} {s : StreamReader ρ}
    {x : List (Option Bytes) × StreamReader ρ} (h : nextLines R fuel n s = some x) :
    nextLines R fuel' n s = some x := by
  induction n generalizing s x with
  | zero => exact h
  | succ n ih =>
    simp only [nextLines, Option.bind_eq_bind, Option.bind_eq_some_iff] at h ⊢
    obtain ⟨y, hy, z, hz, hx⟩ := h
    exact ⟨y, nextLine_mono hle hy, z, ih hz, hx⟩

theorem nextLines_succ {f g n : Nat} {s s' t : StreamReader ρ} {line : Option Bytes}
    {ls : List (Option Bytes)} (h : nextLine R f s = some (line, s'))
    (hn : nextLines R g n s' = some (ls, t)) :
    nextLines R (max f g) (n + 1) s = some (line :: ls, t) := by
  have h1 := nextLine_mono (le_max_left f g) h
  have h2 := nextLines_mono (le_max_right f g) hn
  simp only [nextLines, h1, h2, Option.bind_eq_bind, Option.bind_some]

theorem nextLines_stuck {s : StreamReader ρ} (h : lineStep R s = .ret none s) (n : Nat) :
    nextLines R 1 n s = some (List.replicate n none, s) := by
  induction n with
  | zero => rfl
  | succ n ih => exact nextLines_succ (nextLine_one h) ih

theorem nextLines_ended {s : StreamReader ρ} {fin : Option IoError} (hb : InBounds s)
    (h : Ended s [] fin) (n : Nat) : nextLines R 1 n s = some (List.replicate n none, s) := by
  apply nextLines_stuck
  have hlen := length_unread hb
  rw [h.2.2, List.length_nil] at hlen
  have hlt : ¬ s.start < s.stop := by omega
  simp only [lineStep, h.2.2, h.1, List.idxOf?_nil, if_true, hlt, if_false]

/-- From a reader that has `p` left to hand out, the calls give the lines of
`p` and then nothing, however often they are repeated. -/
theorem nextLines_holds {p : Bytes} {fin : Option IoError} {s : StreamReader ρ}
    (h : Holds R s p fin) (hfit : LinesFit p s.maxLineLen) :
    ∃ fuel s', s'.lastError = fin ∧ ∀ m, nextLines R fuel ((lines p).length + (m + 1)) s =
      some ((lines p).map some ++ List.replicate (m + 1) none, s') := by
  induction p using Lines.pieces_induction LF generalizing s with
  | hlast t ht =>
    obtain ⟨fuel, s', -, ⟨l, q, rfl, -⟩ | ⟨-, hne, hn, hb, he⟩ | ⟨rfl, hn, hb, he⟩⟩ :=
      answers_of_holds h hfit
    · exact absurd (by simp) ht
    · refine ⟨max fuel 1, s', he.2.1, fun m => ?_⟩
      have hl : lines t = [t] := by simp [lines, Lines.split_of_not_mem ht, hne]
      rw [hl, List.length_singleton, Nat.add_comm]
      exact nextLines_succ hn (nextLines_ended hb he (m + 1))
    · refine ⟨max fuel 1, s', he.2.1, fun m => ?_⟩
      have hl : lines [] = [] := rfl
      rw [hl, List.length_nil, Nat.zero_add]
      exact nextLines_succ hn (nextLines_ended hb he m)
  | hpiece a b ha ih =>
    obtain ⟨fuel, s', hm, ⟨l, q, hp, hl, hn, hq⟩ | ⟨hp, -⟩ | ⟨hp, -⟩⟩ := answers_of_holds h hfit
    · obtain ⟨rfl, rfl⟩ := Lines.append_cons_inj ha hl hp
      rw [LinesFit, Lines.split_append ha] at hfit
      have hfit' : LinesFit b s'.maxLineLen := by
        rw [hm]
        exact ⟨fun k hk => hfit.1 k (by simp [hk]), hfit.2⟩
      obtain ⟨fuel', t, ht, hrun⟩ := ih hq hfit'
      refine ⟨max fuel fuel', t, ht, fun m => ?_⟩
      have hlines : lines (a ++ LF :: b) = stripCr a :: lines b := by
        simp [lines, Lines.split_append ha]
      rw [hlines, List.length_cons, Nat.add_right_comm]
      exact nextLines_succ hn (hrun m)
    · exact absurd (by simp) hp
    · simp at hp

theorem holds_fresh {r : ρ} {data : Bytes} {fin : Option IoError} (hdel : Delivers R r data fin)
    (cap maxLineLen : Nat) :
    Holds R (withMaxLineLen (withCapacity r cap) maxLineLen) data fin :=
  ⟨⟨le_rfl, Nat.zero_le _⟩, Or.inl ⟨rfl, rfl, data, rfl, hdel⟩⟩

/-- Over any reader that delivers the data, a fresh `StreamReader` hands out
the lines of the reference splitter, then `None` for ever, and its last error
is the error the stream ended in. -/
theorem nextLines_eq_lines {r : ρ} {data : Bytes} {fin : Option IoError}
    (hdel : Delivers R r data fin) (cap maxLineLen : Nat)
    (hfit : LinesFit data (withMaxLineLen (withCapacity r cap) maxLineLen).maxLineLen) :
    ∃ fuel s', s'.lastError = fin ∧ ∀ m,
      nextLines R fuel ((lines data).length + (m + 1))
          (withMaxLineLen (withCapacity r cap) maxLineLen) =
        some ((lines data).map some ++ List.replicate (m + 1) none, s') :=
  nextLines_holds (holds_fresh hdel cap maxLineLen) hfit

/-- Plays back a script one byte at a time, with an interruption at each
`none`, and then ends as the second component says. -/
def playback : Reader (List (Option UInt8) × Option IoError) where
  read
    | ([], none), _ => (.ok [], ([], none))
    | ([], some e), _ => (.error e, ([], some e))
    | (some b :: es, fin), _ + 1 => (.ok [b], (es, fin))
    | (some b :: es, fin), 0 => (.ok [], (some b :: es, fin))
    | (none :: es, fin), _ => (.error ⟨.interrupted, "interrupted"⟩, (es, fin))
  read_le := by
    rintro ⟨_ | ⟨_ | b, es⟩, _ | e⟩ (_ | n) bs r' h <;> cases h <;> simp

theorem delivers_byte {r r' : ρ} {b : UInt8} {data : Bytes} {fin : Option IoError}
    (hr : ∀ n, 0 < n → R.read r n = (.ok [b], r')) (h : Delivers R r' data fin) :
    Delivers R r (b :: data) fin := by
  apply Delivers.intro
  · intro n bs t hn hx _
    cases (hr n hn).symm.trans hx
    exact ⟨data, rfl⟩
  · intro n bs t hn hx _
    cases (hr n hn).symm.trans hx
    exact h
  · intro n e t hn hx _
    cases (hr n hn).symm.trans hx
  · intro n t hn hx
    cases (hr n hn).symm.trans hx
  · intro n e t hn hx _
    cases (hr n hn).symm.trans hx

theorem delivers_interrupted {r r' : ρ} {e : IoError} {data : Bytes} {fin : Option IoError}
    (hr : ∀ n, R.read r n = (.error e, r')) (he : e.kind = .interrupted)
    (h : Delivers R r' data fin) : Delivers R r data fin := by
  apply Delivers.intro
  · intro n bs t _ hx
    cases (hr n).symm.trans hx
  · intro n bs t _ hx
    cases (hr n).symm.trans hx
  · intro n e' t _ hx _
    cases (hr n).symm.trans hx
    exact h
  · intro n t _ hx
    cases (hr n).symm.trans hx
  · intro n e' t _ hx hne
    cases (hr n).symm.trans hx
    exact absurd he hne

theorem delivers_playback {fin : Option IoError} (hfin : ∀ e ∈ fin, e.kind ≠ .interrupted)
    (es : List (Option UInt8)) : Delivers playback (es, fin) (es.filterMap id) fin := by
  induction es with
  | nil =>
    cases fin with
    | none => apply Delivers.intro <;> rintro n <;> simp [playback]
    | some e =>
      have he := hfin e rfl
      apply Delivers.intro <;> rintro n <;> simp +contextual [playback, he]
  | cons o es ih =>
    cases o with
    | none => exact delivers_interrupted (fun _ => rfl) rfl ih
    | some b =>
      apply delivers_byte ?_ ih
      rintro (_ | n) hn
      · cases hn
      · rfl

/-- The bytes `a CR LF b` arrive one by one, with an interruption, and then
the connection is reset. -/
theorem nextLines_eq_lines_reset :
    ∃ fuel s', s'.lastError = some ⟨.other 104, "connection reset"⟩ ∧ ∀ m,
      nextLines playback fuel (2 + (m + 1))
          (withMaxLineLen (withCapacity ([some 97, none, some CR, some LF, some 98],
            some ⟨.other 104, "connection reset"⟩) 0) 2) =
        some ([some [97], some [98]] ++ List.replicate (m + 1) none, s') :=
  nextLines_eq_lines (delivers_playback (by simp) _) 0 2 (by decide)

end TptTelemetry.Core.LineReader
