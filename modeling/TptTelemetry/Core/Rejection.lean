import TptTelemetry.Core.LineReader

namespace TptTelemetry.Core.Rejection

open TptTelemetry.Lib TptTelemetry.Lib.Utf8 TptTelemetry.Core.Stream TptTelemetry.Core.LineReader
open TptTelemetry.Framing.Decoder (LF CR stripCr)

variable {ρ : Type} {R : Reader ρ}

/-- The branch of `next_line` that rejects: an open reader whose region without
a newline is over the ceiling. -/
def Overlong (s : StreamReader ρ) : Prop :=
  LF ∉ unread s ∧ s.done = false ∧ s.maxLineLen < s.stop - s.start

def Step.state : Step ρ → StreamReader ρ
  | .ret _ s => s
  | .cont s => s

/-- The states in which an iteration of the loop starts, over any number of
calls. -/
inductive Iterates (R : Reader ρ) (s : StreamReader ρ) : StreamReader ρ → Prop
  | refl : Iterates R s s
  | step {t : StreamReader ρ} (h : Iterates R s t) : Iterates R s (Step.state (lineStep R t))

/-- Once a call has returned `None`, so does every later one. -/
def EndFinal (R : Reader ρ) (s : StreamReader ρ) : Prop :=
  ∀ fuel n ls s', nextLines R fuel (n + 1) s = some (ls ++ [none], s') →
    ∀ m, ∃ fuel' t, nextLines R fuel' m s' = some (List.replicate m none, t)

theorem lineStep_none {s s' : StreamReader ρ} (h : lineStep R s = .ret none s') :
    Overlong s ∨ s' = s := by
  rw [lineStep] at h
  split at h
  · cases h
  · next hi =>
    split at h
    · split at h <;> cases h
      exact Or.inr rfl
    · next hd =>
      split at h
      · next hm => exact Or.inl ⟨List.idxOf?_eq_none_iff.mp hi, Bool.eq_false_of_not_eq_true hd, hm⟩
      · cases h

theorem lineStep_overlong {s : StreamReader ρ} (h : Overlong s) :
    ∃ s', lineStep R s = .ret none s' ∧
      lineStep R s' = .ret (some (unread s)) { s' with start := s'.stop } := by
  obtain ⟨hl, hd, hm⟩ := h
  have hi := List.idxOf?_eq_none_iff.mpr hl
  have hlt : s.start < s.stop := by omega
  refine ⟨{ s with lastError := some overlong, done := true }, ?_, ?_⟩
  · simp only [lineStep, hi, hd, Bool.false_eq_true, if_false, gt_iff_lt, hm, if_true]
  · have hu : unread { s with lastError := some overlong, done := true } = unread s := rfl
    simp only [lineStep, hu, hi, if_true, hlt]

theorem nextLine_cont {s s' : StreamReader ρ} (h : lineStep R s = .cont s') (fuel : Nat) :
    nextLine R (fuel + 1) s = nextLine R fuel s' := by
  simp only [nextLine, h]

theorem nextLine_det {f g : Nat} {s : StreamReader ρ} {x y : Option Bytes × StreamReader ρ}
    (hx : nextLine R f s = some x) (hy : nextLine R g s = some y) : x = y := by
  have h := (nextLine_mono (le_max_left f g) hx).symm.trans (nextLine_mono (le_max_right f g) hy)
  exact Option.some.inj h

theorem nextLine_ret {fuel : Nat} {s u s' : StreamReader ρ} {line : Option Bytes}
    (hu : Iterates R s u) (h : nextLine R fuel u = some (line, s')) :
    ∃ t, Iterates R s t ∧ lineStep R t = .ret line s' := by
  induction fuel generalizing u with
  | zero => cases h
  | succ fuel ih =>
    have hs := Iterates.step hu
    cases hc : lineStep R u with
    | ret l v =>
      simp only [nextLine, hc] at h
      cases h
      exact ⟨u, hu, hc⟩
    | cont v =>
      rw [hc] at hs
      rw [nextLine_cont hc] at h
      exact ih hs h

def Within (R : Reader ρ) (s t : StreamReader ρ) : Prop :=
  ∃ fuel n ls u k, nextLines R fuel n s = some (ls, u) ∧
    ∀ f, nextLine R (f + k) u = nextLine R f t

theorem nextLines_cons {fuel n : Nat} {s v : StreamReader ρ} {xs : List (Option Bytes)} :
    nextLines R fuel (n + 1) s = some (xs, v) ↔
      ∃ line u ls, nextLine R fuel s = some (line, u) ∧ nextLines R fuel n u = some (ls, v) ∧
        xs = line :: ls := by
  simp only [nextLines, Option.bind_eq_bind, Option.bind_eq_some_iff]
  constructor
  · rintro ⟨⟨line, u⟩, h, ⟨ls, w⟩, hn, hx⟩
    cases hx
    exact ⟨line, u, ls, h, hn, rfl⟩
  · rintro ⟨line, u, ls, h, hn, rfl⟩
    exact ⟨(line, u), h, (ls, v), hn, rfl⟩

theorem nextLines_concat {fuel n : Nat} {s v : StreamReader ρ} {xs : List (Option Bytes)} :
    nextLines R fuel (n + 1) s = some (xs, v) ↔
      ∃ ls u line, nextLines R fuel n s = some (ls, u) ∧ nextLine R fuel u = some (line, v) ∧
        xs = ls ++ [line] := by
  induction n generalizing s xs with
  | zero =>
    rw [nextLines_cons]
    constructor
    · rintro ⟨line, u, ls, h, hn, rfl⟩
      cases hn
      exact ⟨[], s, line, rfl, h, rfl⟩
    · rintro ⟨ls, u, line, hn, h, rfl⟩
      cases hn
      exact ⟨line, v, [], h, rfl, rfl⟩
  | succ n ih =>
    rw [nextLines_cons]
    constructor
    · rintro ⟨l, u, ls, h, hn, rfl⟩
      obtain ⟨ls', w, line, hn', hl, rfl⟩ := ih.mp hn
      exact ⟨l :: ls', w, line, nextLines_cons.mpr ⟨l, u, ls', h, hn', rfl⟩, hl, rfl⟩
    · rintro ⟨xs', w, line, hn, hl, rfl⟩
      obtain ⟨l, u, ls, h, hn', rfl⟩ := nextLines_cons.mp hn
      exact ⟨l, u, ls ++ [line], h, ih.mpr ⟨ls, w, line, hn', hl, rfl⟩, rfl⟩

theorem within_of_iterates {s t : StreamReader ρ} (h : Iterates R s t) : Within R s t := by
  induction h with
  | refl => exact ⟨0, 0, [], s, 0, rfl, fun _ => rfl⟩
  | @step t _ ih =>
    obtain ⟨fuel, n, ls, u, k, hn, hk⟩ := ih
    cases hc : lineStep R t with
    | ret line v =>
      have hv : nextLine R (1 + k) u = some (line, v) := (hk 1).trans (nextLine_one hc)
      refine ⟨max fuel (1 + k), n + 1, ls ++ [line], v, 0, nextLines_concat.mpr ?_, fun _ => rfl⟩
      exact ⟨ls, u, line, nextLines_mono (le_max_left _ _) hn, nextLine_mono (le_max_right _ _) hv,
        rfl⟩
    | cont v =>
      refine ⟨fuel, n, ls, u, k + 1, hn, fun f => ?_⟩
      rw [Nat.add_comm k 1, ← Nat.add_assoc, hk, nextLine_cont hc]
      rfl

theorem iterates_nextLines {fuel n : Nat} {s s₀ u : StreamReader ρ} {ls : List (Option Bytes)}
    (h₀ : Iterates R s₀ s) (h : nextLines R fuel n s = some (ls, u)) : Iterates R s₀ u := by
  induction n generalizing s ls with
  | zero =>
    cases h
    exact h₀
  | succ n ih =>
    obtain ⟨l, s₁, ls', h₁, h₂, rfl⟩ := nextLines_cons.mp h
    obtain ⟨t, ht, hret⟩ := nextLine_ret h₀ h₁
    have hs := Iterates.step ht
    rw [hret] at hs
    exact ih hs h₂

/-- The end of input is final exactly when no iteration of the run rejects an
overlong line. -/
theorem endFinal_iff (R : Reader ρ) (r : ρ) (cap maxLineLen : Nat) :
    EndFinal R (withMaxLineLen (withCapacity r cap) maxLineLen) ↔
      ∀ t, Iterates R (withMaxLineLen (withCapacity r cap) maxLineLen) t → ¬ Overlong t := by
  generalize withMaxLineLen (withCapacity r cap) maxLineLen = s
  constructor
  · intro hfinal t ht hover
    obtain ⟨fuel, n, ls, u, k, hn, hk⟩ := within_of_iterates ht
    obtain ⟨t', hrej, hout⟩ := lineStep_overlong (R := R) hover
    have hcall : nextLine R (1 + k) u = some (none, t') := (hk 1).trans (nextLine_one hrej)
    have hcalls : nextLines R (max fuel (1 + k)) (n + 1) s = some (ls ++ [none], t') :=
      nextLines_concat.mpr ⟨ls, u, none, nextLines_mono (le_max_left _ _) hn,
        nextLine_mono (le_max_right _ _) hcall, rfl⟩
    obtain ⟨fuel', v, hv⟩ := hfinal _ _ _ _ hcalls 1
    obtain ⟨line, w, ls', hline, -, hx⟩ := nextLines_cons.mp hv
    cases hx
    cases nextLine_det (nextLine_one hout) hline
  · intro hnone fuel n ls s' h m
    obtain ⟨ls', u, line, hn, hline, hx⟩ := nextLines_concat.mp h
    obtain ⟨rfl, hl⟩ := List.append_inj' hx rfl
    cases hl
    obtain ⟨t, ht, hret⟩ := nextLine_ret (iterates_nextLines .refl hn) hline
    obtain hover | rfl := lineStep_none hret
    · exact absurd hover (hnone t ht)
    · exact ⟨1, s', nextLines_stuck hret m⟩

/-- Six bytes without a newline, over a ceiling of four, arrive one by one: the
first call rejects them, and the second hands five of them out. -/
theorem end_not_final :
    ¬ EndFinal playback
      (withMaxLineLen (withCapacity (List.replicate 6 (some 97), none) 0) 4) := by
  intro h
  have hc : ∃ s', nextLines playback 6 1
        (withMaxLineLen (withCapacity (List.replicate 6 (some 97), none) 0) 4) =
        some ([none], s') ∧ nextLine playback 1 s' =
        some (some (List.replicate 5 97), { s' with start := s'.stop }) := ⟨_, rfl, rfl⟩
  obtain ⟨s', hn, hout⟩ := hc
  obtain ⟨fuel, t, ht⟩ := h 6 0 [] s' hn 1
  obtain ⟨line, w, ls', hline, -, hx⟩ := nextLines_cons.mp ht
  cases hx
  cases nextLine_det hout hline

/-- The lines returned up to the first `None`, and the error that is then
recorded. -/
def Returns (R : Reader ρ) (s : StreamReader ρ) (ls : List Bytes) (err : Option IoError) : Prop :=
  ∃ fuel s', nextLines R fuel (ls.length + 1) s = some (ls.map some ++ [none], s') ∧
    s'.lastError = err

def IsInvalidData (err : Option IoError) : Prop := err.map IoError.kind = some .invalidData

/-- Whatever delivers the bytes, and into whatever buffer, the same lines are
returned up to the first `None` with the same verdict, and no call returns a
line over the ceiling. -/
def CeilingByBytes (data : Bytes) (maxLineLen : Nat) : Prop :=
  (∀ (ρ ρ' : Type) (R : Reader ρ) (R' : Reader ρ') (r : ρ) (r' : ρ') (fin : Option IoError)
      (cap cap' : Nat), Delivers R r data fin → Delivers R' r' data fin →
    ∃ ls err err', Returns R (withMaxLineLen (withCapacity r cap) maxLineLen) ls err ∧
      Returns R' (withMaxLineLen (withCapacity r' cap') maxLineLen) ls err' ∧
      (IsInvalidData err ↔ IsInvalidData err')) ∧
  ∀ (ρ : Type) (R : Reader ρ) (r : ρ) (fin : Option IoError) (cap : Nat), Delivers R r data fin →
    ∀ fuel n ls s', nextLines R fuel n (withMaxLineLen (withCapacity r cap) maxLineLen) =
      some (ls, s') → ∀ l, some l ∈ ls →
        l.length ≤ (withMaxLineLen (withCapacity r cap) maxLineLen).maxLineLen

theorem nextLines_initial {f g n k : Nat} {s t u : StreamReader ρ} {xs ys : List (Option Bytes)}
    (hx : nextLines R f n s = some (xs, t)) (hy : nextLines R g (n + k) s = some (ys, u)) :
    xs <+: ys := by
  induction n generalizing s xs ys with
  | zero =>
    cases hx
    exact List.nil_prefix
  | succ n ih =>
    rw [Nat.add_right_comm] at hy
    obtain ⟨l, v, xs', hl, hx', rfl⟩ := nextLines_cons.mp hx
    obtain ⟨l', v', ys', hl', hy', rfl⟩ := nextLines_cons.mp hy
    cases nextLine_det hl hl'
    exact (List.prefix_cons_inj l).mpr (ih hx' hy')

theorem length_le_of_mem_lines {data l : Bytes} {m : Nat} (hfit : LinesFit data m)
    (hl : l ∈ lines data) : l.length ≤ m := by
  rw [lines, List.mem_append] at hl
  obtain hl | hl := hl
  · obtain ⟨a, ha, rfl⟩ := List.mem_map.mp hl
    apply le_trans _ (hfit.1 a ha)
    rw [stripCr]
    split
    · rw [List.length_dropLast]
      omega
    · exact le_rfl
  · split at hl
    · cases hl
    · rw [List.mem_singleton.mp hl]
      exact hfit.2

theorem ceilingByBytes_of_linesFit {data : Bytes} {maxLineLen : Nat}
    (hfit : LinesFit data (max maxLineLen 1)) : CeilingByBytes data maxLineLen := by
  constructor
  · intro ρ ρ' R R' r r' fin cap cap' hr hr'
    obtain ⟨fuel, s, he, hs⟩ := nextLines_holds (holds_fresh hr cap maxLineLen) hfit
    obtain ⟨fuel', s', he', hs'⟩ := nextLines_holds (holds_fresh hr' cap' maxLineLen) hfit
    exact ⟨lines data, fin, fin, ⟨fuel, s, hs 0, he⟩, ⟨fuel', s', hs' 0, he'⟩, Iff.rfl⟩
  · intro ρ R r fin cap hr fuel n ls s' hn l hl
    obtain ⟨fuel', s, -, hs⟩ := nextLines_holds (holds_fresh hr cap maxLineLen) hfit
    have hs := hs n
    rw [Nat.add_comm, Nat.add_assoc] at hs
    have hl' := (nextLines_initial hn hs).subset hl
    apply length_le_of_mem_lines hfit
    simpa using hl'

/-- An open reader that gets the script `es` byte by byte, with `u` unread. -/
structure Bytewise (s : StreamReader (List (Option UInt8) × Option IoError)) (u : Bytes)
    (es : List (Option UInt8)) (m : Nat) : Prop where
  bounds : InBounds s
  region : unread s = u
  script : s.reader = (es, none)
  active : s.done = false
  ceiling : s.maxLineLen = m

theorem Bytewise.read {s : StreamReader (List (Option UInt8) × Option IoError)} {u : Bytes}
    {b : UInt8} {es : List (Option UInt8)} {m : Nat} (h : Bytewise s u (some b :: es) m)
    (hl : LF ∉ u) (hu : u.length ≤ m) :
    ∃ s', lineStep playback s = .cont s' ∧ Bytewise s' (u ++ [b]) es m := by
  obtain ⟨hb, rfl, hr, hd, rfl⟩ := h
  obtain ⟨hg, hun, hpos⟩ := room_spec hb
  obtain ⟨-, hfd, -, hfm⟩ := room_frame s
  have hread : playback.read s.reader
      ((grow (compact s)).buf.length - (grow (compact s)).stop) = (.ok [b], (es, none)) := by
    rw [hr]
    obtain ⟨k, hk⟩ := Nat.exists_eq_succ_of_ne_zero hpos.ne'
    rw [hk]
    rfl
  have hstep := lineStep_read (R := playback) hb hl hd hu
  rw [hread] at hstep
  have hone : [b].length ≤ (grow (compact s)).buf.length - (grow (compact s)).stop := hpos
  obtain ⟨hf, hfu, -⟩ := fill_spec hg hone
  refine ⟨_, hstep, hf, ?_, rfl, hfd.trans hd, hfm⟩
  rw [← hun]
  exact hfu

theorem Bytewise.reads {s : StreamReader (List (Option UInt8) × Option IoError)} {u l : Bytes}
    {es : List (Option UInt8)} {m : Nat} (h : Bytewise s u (l.map some ++ es) m)
    (hl : LF ∉ u ++ l) (hu : (u ++ l).length ≤ m + 1) :
    ∃ k s', (∀ f, nextLine playback (f + k) s = nextLine playback f s') ∧
      Bytewise s' (u ++ l) es m := by
  induction l generalizing s u with
  | nil =>
    rw [List.append_nil]
    exact ⟨0, s, fun _ => rfl, h⟩
  | cons b l ih =>
    have hlu : LF ∉ u := fun hm => hl (List.mem_append_left _ hm)
    have hum : u.length ≤ m := by
      rw [List.length_append, List.length_cons] at hu
      omega
    obtain ⟨t, hstep, ht⟩ := h.read hlu hum
    have hcons : u ++ b :: l = u ++ [b] ++ l := List.append_cons u b l
    rw [hcons] at hl hu ⊢
    obtain ⟨k, s', hk, hs'⟩ := ih ht hl hu
    refine ⟨k + 1, s', fun f => ?_, hs'⟩
    rw [← Nat.add_assoc, nextLine_cont hstep, hk]

theorem Bytewise.line {s : StreamReader (List (Option UInt8) × Option IoError)} {a : Bytes}
    {es : List (Option UInt8)} {m : Nat} (h : Bytewise s [] (a.map some ++ some LF :: es) m)
    (ha : LF ∉ a) (hm : a.length ≤ m) :
    ∃ fuel s', nextLine playback fuel s = some (some (stripCr a), s') ∧ Bytewise s' [] es m := by
  obtain ⟨k, t, hk, ht⟩ := h.reads ha (Nat.le_succ_of_le hm)
  obtain ⟨v, hstep, hv⟩ := ht.read ha hm
  have hregion : unread v = a ++ LF :: [] := hv.region
  have hret := lineStep_line (R := playback) hv.bounds hregion ha
  obtain ⟨hb, hu⟩ := unread_advance hv.bounds hregion
  refine ⟨1 + 1 + k, _, ?_, hb, hu, hv.script, hv.active, hv.ceiling⟩
  rw [hk, nextLine_cont hstep]
  exact nextLine_one hret

theorem Bytewise.overlong {s : StreamReader (List (Option UInt8) × Option IoError)} {a : Bytes}
    {es : List (Option UInt8)} {m : Nat} (h : Bytewise s [] (a.map some ++ es) m) (ha : LF ∉ a)
    (hm : m < a.length) :
    ∃ fuel s' l, nextLines playback fuel 2 s = some ([none, some l], s') ∧ m < l.length := by
  have htake : (a.take (m + 1)).length = m + 1 := List.length_take_of_le hm
  rw [← List.take_append_drop (m + 1) a, List.map_append, List.append_assoc] at h
  obtain ⟨k, t, hk, ht⟩ := h.reads (fun hl => ha (List.mem_of_mem_take hl)) htake.le
  have hu : unread t = a.take (m + 1) := ht.region
  have hover : Overlong t := by
    refine ⟨?_, ht.active, ?_⟩
    · rw [hu]
      exact fun hl => ha (List.mem_of_mem_take hl)
    · rw [← length_unread ht.bounds, hu, htake, ht.ceiling]
      exact Nat.lt_succ_self m
  obtain ⟨t', hrej, hout⟩ := lineStep_overlong (R := playback) hover
  have hcall : nextLine playback (1 + k) s = some (none, t') := (hk 1).trans (nextLine_one hrej)
  refine ⟨_, _, unread t, nextLines_succ hcall (nextLines_succ (g := 0) (nextLine_one hout) rfl), ?_⟩
  rw [hu, htake]
  exact Nat.lt_succ_self m

/-- Where a line does not fit, reading byte by byte hands out one that is over
the ceiling. -/
theorem Bytewise.exceeds {s : StreamReader (List (Option UInt8) × Option IoError)} {p : Bytes}
    {m : Nat} (h : Bytewise s [] (p.map some) m) (hfit : ¬ LinesFit p m) :
    ∃ fuel n ls s' l, nextLines playback fuel n s = some (ls, s') ∧ some l ∈ ls ∧ m < l.length := by
  induction p using Lines.pieces_induction LF generalizing s with
  | hlast t ht =>
    have hm : m < t.length := by
      rw [LinesFit, Lines.split_of_not_mem ht] at hfit
      by_contra hm
      exact hfit ⟨by simp, Nat.le_of_not_lt hm⟩
    rw [← List.append_nil (t.map some)] at h
    obtain ⟨fuel, s', l, hn, hl⟩ := h.overlong ht hm
    exact ⟨fuel, 2, _, s', l, hn, by simp, hl⟩
  | hpiece a b ha ih =>
    rw [List.map_append, List.map_cons] at h
    by_cases hm : m < a.length
    · obtain ⟨fuel, s', l, hn, hl⟩ := h.overlong ha hm
      exact ⟨fuel, 2, _, s', l, hn, by simp, hl⟩
    · obtain ⟨fuel, t, hcall, ht⟩ := h.line ha (Nat.le_of_not_lt hm)
      have hfit' : ¬ LinesFit b m := by
        intro hb
        apply hfit
        rw [LinesFit, Lines.split_append ha]
        exact ⟨List.forall_mem_cons.mpr ⟨Nat.le_of_not_lt hm, hb.1⟩, hb.2⟩
      obtain ⟨fuel', n, ls, s', l, hn, hmem, hl⟩ := ih ht hfit'
      exact ⟨_, n + 1, _, s', l, nextLines_succ hcall hn, List.mem_cons_of_mem _ hmem, hl⟩

/-- The ceiling depends on the bytes alone exactly when no line, with its CR,
and no unterminated rest is over it. -/
theorem ceilingByBytes_iff (data : Bytes) (maxLineLen : Nat) :
    CeilingByBytes data maxLineLen ↔ LinesFit data (max maxLineLen 1) := by
  refine ⟨fun h => ?_, ceilingByBytes_of_linesFit⟩
  by_contra hfit
  have hs : Bytewise (withMaxLineLen (withCapacity (data.map some, none) 0) maxLineLen) []
      (data.map some) (max maxLineLen 1) := ⟨⟨le_rfl, Nat.zero_le _⟩, rfl, rfl, rfl, rfl⟩
  obtain ⟨fuel, n, ls, s', l, hn, hmem, hl⟩ := hs.exceeds hfit
  have hdel : Delivers playback (data.map some, none) _ none :=
    delivers_playback (by simp) (data.map some)
  rw [List.filterMap_map, Function.id_comp, List.filterMap_some] at hdel
  exact absurd (h.2 _ playback _ none 0 hdel fuel n ls s' hn l hmem) (Nat.not_le_of_lt hl)

/-- `std::io::Cursor` over some bytes: a read gives as many as there is room
for. -/
def cursor : Reader Bytes where
  read r n := (.ok (r.take n), r.drop n)
  read_le := by
    intro r n bs r' h
    cases h
    exact List.length_take_le n r

theorem delivers_cursor (data : Bytes) : Delivers cursor data data none := by
  induction h : data.length using Nat.strongRecOn generalizing data with
  | _ k ih =>
    apply Delivers.intro
    · intro n bs r' _ hx _
      cases hx
      exact List.take_prefix n data
    · intro n bs r' hn hx hne
      cases hx
      have hpos : 0 < data.length := by
        apply List.length_pos_of_ne_nil
        rintro rfl
        exact hne (by simp)
      have hdrop : data.drop (data.take n).length = data.drop n := by
        rw [List.length_take]
        obtain hle | hle := Nat.le_total n data.length
        · rw [Nat.min_eq_left hle]
        · rw [Nat.min_eq_right hle, List.drop_length, List.drop_eq_nil_of_le hle]
      rw [hdrop]
      apply ih _ _ _ rfl
      rw [List.length_drop]
      omega
    · intro n e r' _ hx
      cases hx
    · intro n r' hn hx
      obtain ⟨h0, -⟩ := Prod.mk.inj hx
      obtain h0 | h0 := List.take_eq_nil_iff.mp (Except.ok.inj h0)
      · exact absurd h0 hn.ne'
      · exact ⟨h0, rfl⟩
    · intro n e r' _ hx
      cases hx

/-- The line `abcdef`, over a ceiling of four: read at once into a buffer of
sixteen bytes it is returned, read byte by byte it is rejected. -/
theorem ceiling_not_by_bytes :
    ¬ CeilingByBytes [97, 98, 99, 100, 101, 102, LF] 4 := by
  intro h
  have hdel : Delivers playback ([97, 98, 99, 100, 101, 102, LF].map some, none) _ none :=
    delivers_playback (by simp) ([97, 98, 99, 100, 101, 102, LF].map some)
  obtain ⟨ls, err, err', ⟨f, s, hs, -⟩, ⟨g, t, ht, -⟩, -⟩ :=
    h.1 _ _ cursor playback _ _ none 16 0 (delivers_cursor _) hdel
  have hwhole : ∃ s', nextLine cursor 2 (withMaxLineLen (withCapacity
      [97, 98, 99, 100, 101, 102, LF] 16) 4) = some (some [97, 98, 99, 100, 101, 102], s') :=
    ⟨_, rfl⟩
  have hbytes : ∃ s', nextLine playback 6 (withMaxLineLen (withCapacity
      ([97, 98, 99, 100, 101, 102, LF].map some, none) 0) 4) = some (none, s') := ⟨_, rfl⟩
  obtain ⟨s₁, h₁⟩ := hwhole
  obtain ⟨s₂, h₂⟩ := hbytes
  obtain ⟨l, u, xs, hl, -, hx⟩ := nextLines_cons.mp hs
  obtain ⟨l', u', xs', hl', -, hx'⟩ := nextLines_cons.mp ht
  cases nextLine_det h₁ hl
  cases nextLine_det h₂ hl'
  rw [hx] at hx'
  cases hx'

end TptTelemetry.Core.Rejection
