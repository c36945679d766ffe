import TptTelemetry.Compiler.Matcher

namespace TptTelemetry.Compiler.Stack

open TptTelemetry.Lib TptTelemetry.Lib.Text TptTelemetry.Dsl.Ast
open TptTelemetry.Compiler.Scalar TptTelemetry.Compiler.Compile TptTelemetry.Compiler.Matcher

variable {C : Chrono} {line : Str}

/-- `match_segments` with its index into the whole list of segments, where an
index behind the end panics. -/
def matchSegmentsAt (C : Chrono) (segs : List Seg) (line : Str) (si pos : Nat) (caps : List Cap) :
    Except Panic (Bool × List Cap) :=
  if si ≤ segs.length then matchSegments C line (segs.drop si) si pos caps else .error .seqIndex

/-- The position behind the first `n` segments, given the ranges of the captures
among them. -/
def reached : List Seg → List Cap → Nat → Nat → Nat
  | .literal l :: segs, caps, pos, n + 1 => reached segs caps (pos + byteLen l) n
  | .capture _ _ :: segs, c :: caps, _, n + 1 => reached segs caps c.stop n
  | _, _, pos, _ => pos

/-- What a successful search from the segment `si` and the position `pos` has
pushed: one range a capture, in the order of the segments, each within the line
and from where the segments before it have led to. -/
structure Pushed (segs : List Seg) (line : Str) (si pos : Nat) (new : List Cap) : Prop where
  captures : ∀ i, i ∈ new.map Cap.si ↔ si ≤ i ∧ ∃ field ty, segs[i]? = some (.capture field ty)
  increasing : (new.map Cap.si).Pairwise (· < ·)
  ranges : ∀ c ∈ new, pos ≤ c.start ∧ c.start ≤ c.stop ∧ c.stop ≤ byteLen line
  starts : ∀ c ∈ new, c.start = reached (segs.drop si) new pos (c.si - si)

/-- The stack behind a search: as it was when nothing is found, and else with
what satisfies `P` on top. -/
def Balanced (P : List Cap → Prop) (caps : List Cap) : Bool × List Cap → Prop
  | (false, caps') => caps' = caps
  | (true, caps') => ∃ new, caps' = caps ++ new ∧ P new

inductive Placed (line : Str) : List Seg → Nat → Nat → List Cap → Prop
  | nil (si pos : Nat) : Placed line [] si pos []
  | literal {l : Str} {segs : List Seg} {si pos : Nat} {new : List Cap}
      (h : Placed line segs (si + 1) (pos + byteLen l) new) :
      Placed line (.literal l :: segs) si pos new
  | capture (field : Str) (ty : TypeName) {segs : List Seg} {si pos stop : Nat} {new : List Cap}
      (hle : pos ≤ stop) (hend : stop ≤ byteLen line) (h : Placed line segs (si + 1) stop new) :
      Placed line (.capture field ty :: segs) si pos (⟨si, pos, stop⟩ :: new)

section Search

variable {ty : TypeName} {si pos : Nat} {next : Nat → List Cap → Except Panic (Bool × List Cap)}

def Tops (P : Nat → List Cap → Prop) (line : Str) (si pos : Nat) (new : List Cap) : Prop :=
  ∃ stop rest, new = ⟨si, pos, stop⟩ :: rest ∧ pos ≤ stop ∧ stop ≤ byteLen line ∧ P stop rest

theorem balanced_tops {P : Nat → List Cap → Prop} {stop : Nat} {caps caps' : List Cap}
    (hle : pos ≤ stop) (hend : stop ≤ byteLen line)
    (h : Balanced (P stop) (caps ++ [⟨si, pos, stop⟩]) (true, caps')) :
    Balanced (Tops P line si pos) caps (true, caps') := by
  obtain ⟨rest, rfl, hrest⟩ := h
  exact ⟨⟨si, pos, stop⟩ :: rest, by simp, stop, rest, rfl, hle, hend, hrest⟩

theorem captureLoop_balanced {P : Nat → List Cap → Prop}
    (hnext : ∀ stop caps x, next stop caps = .ok x → Balanced (P stop) caps x) {n : Nat}
    {caps : List Cap} {x : Bool × List Cap}
    (h : captureLoop C line ty si pos next n caps = .ok x) :
    Balanced (Tops P line si pos) caps x := by
  induction n generalizing x with
  | zero =>
    cases h
    rfl
  | succ stop ih =>
    rw [captureLoop] at h
    split at h
    · obtain ⟨sub, hsub, h⟩ := bind_eq_ok.mp h
      obtain ⟨p, r, hline, rfl, hstop⟩ := slice_eq_ok hsub
      have hlen := congrArg byteLen hline
      rw [byteLen_append, byteLen_append] at hlen
      have hle : byteLen p ≤ stop := by omega
      have hend : stop ≤ byteLen line := by omega
      split at h
      · obtain ⟨⟨found, caps'⟩, hrec, h⟩ := bind_eq_ok.mp h
        have hb := hnext _ _ _ hrec
        cases found with
        | true =>
          cases h
          exact balanced_tops hle hend hb
        | false =>
          -- the range is popped when the rest has left the stack alone
          have hpop : caps'.dropLast = caps := by
            rw [show caps' = _ from hb, List.dropLast_concat]
          simp only [Bool.false_eq_true, if_false, hpop] at h
          exact ih h
      · exact ih h
    · cases h
      rfl

theorem Balanced.mono {P Q : List Cap → Prop} {caps : List Cap} {x : Bool × List Cap}
    (h : Balanced P caps x) (hpq : ∀ new, P new → Q new) : Balanced Q caps x := by
  obtain ⟨found, caps'⟩ := x
  cases found with
  | false => exact h
  | true =>
    obtain ⟨new, hnew, hp⟩ := h
    exact ⟨new, hnew, hpq new hp⟩

theorem placed_of_tops {segs : List Seg} (field : Str) (ty : TypeName) (new : List Cap)
    (h : Tops (Placed line segs (si + 1)) line si pos new) :
    Placed line (.capture field ty :: segs) si pos new := by
  obtain ⟨stop, rest, rfl, hle, hend, hrest⟩ := h
  exact .capture field ty hle hend hrest

theorem matchSegments_balanced {segs : List Seg} {caps : List Cap} {x : Bool × List Cap}
    (h : matchSegments C line segs si pos caps = .ok x) :
    Balanced (Placed line segs si pos) caps x := by
  induction segs generalizing si pos caps x with
  | nil =>
    obtain ⟨found, caps'⟩ := x
    cases h
    cases decide (pos = byteLen line) with
    | true => exact ⟨[], by simp, .nil si pos⟩
    | false => rfl
  | cons seg segs ih =>
    cases seg with
    | literal l =>
      rw [matchSegments] at h
      obtain ⟨tail, -, h⟩ := bind_eq_ok.mp h
      split at h
      · exact (ih h).mono fun new => .literal
      · cases h
        rfl
    | capture field ty =>
      rw [matchSegments] at h
      obtain ⟨⟨found, caps'⟩, hloop, hrest⟩ := bind_eq_ok.mp h
      have hb := captureLoop_balanced (P := Placed line segs (si + 1)) (fun stop caps x => ih) hloop
      cases found with
      | true =>
        cases hrest
        exact hb.mono (placed_of_tops field ty)
      | false =>
        obtain rfl : caps' = caps := hb
        simp only [Bool.false_eq_true, if_false] at hrest
        split at hrest
        · next hempty =>
          obtain ⟨⟨found, caps''⟩, hrec, hx⟩ := bind_eq_ok.mp hrest
          have hb := ih hrec
          cases found with
          | true =>
            cases hx
            exact (balanced_tops (Nat.le_refl pos) hempty.2 hb).mono (placed_of_tops field ty)
          | false =>
            cases hx
            rw [show caps'' = _ from hb, Balanced, List.dropLast_concat]
        · cases hrest
          rfl

end Search

section Places

variable {segs : List Seg} {si pos : Nat} {new : List Cap}

theorem Placed.si_le (h : Placed line segs si pos new) : ∀ c ∈ new, si ≤ c.si := by
  induction h with
  | nil => simp
  | literal _ ih => exact fun c hc => Nat.le_of_succ_le (ih c hc)
  | capture field ty _ _ _ ih =>
    exact List.forall_mem_cons.mpr ⟨Nat.le_refl _, fun c hc => Nat.le_of_succ_le (ih c hc)⟩

theorem getElem?_behind {seg : Seg} {i : Nat} (hi : si < i) :
    (seg :: segs)[i - si]? = segs[i - (si + 1)]? := by
  rw [show i - si = i - (si + 1) + 1 by omega, List.getElem?_cons_succ]

theorem Placed.captures (h : Placed line segs si pos new) (i : Nat) :
    i ∈ new.map Cap.si ↔ si ≤ i ∧ ∃ field ty, segs[i - si]? = some (.capture field ty) := by
  induction h with
  | nil => simp
  | @literal l segs si pos new _ ih =>
    rw [ih]
    obtain hi | rfl | hi := Nat.lt_trichotomy i si
    · exact iff_of_false (fun h => by omega) (fun h => by omega)
    · exact iff_of_false (fun h => by omega) (by simp)
    · rw [getElem?_behind hi]
      exact and_congr_left fun _ => ⟨Nat.le_of_succ_le, fun _ => hi⟩
  | @capture field ty segs si pos stop new _ _ _ ih =>
    rw [List.map_cons, List.mem_cons, ih]
    obtain hi | rfl | hi := Nat.lt_trichotomy i si
    · refine iff_of_false ?_ (fun h => by omega)
      rintro (rfl | h)
      · exact Nat.lt_irrefl _ hi
      · omega
    · exact iff_of_true (Or.inl rfl) ⟨Nat.le_refl _, field, ty, by simp⟩
    · rw [getElem?_behind hi, or_iff_right (Nat.ne_of_gt hi)]
      exact and_congr_left fun _ => ⟨Nat.le_of_succ_le, fun _ => hi⟩

theorem Placed.increasing (h : Placed line segs si pos new) :
    (new.map Cap.si).Pairwise (· < ·) := by
  induction h with
  | nil => exact List.Pairwise.nil
  | literal _ ih => exact ih
  | capture field ty _ _ h ih =>
    refine List.pairwise_cons.mpr ⟨fun i hi => ?_, ih⟩
    obtain ⟨c, hc, rfl⟩ := List.mem_map.mp hi
    exact h.si_le c hc

theorem Placed.ranges (h : Placed line segs si pos new) :
    ∀ c ∈ new, pos ≤ c.start ∧ c.start ≤ c.stop ∧ c.stop ≤ byteLen line := by
  induction h with
  | nil => simp
  | literal _ ih =>
    intro c hc
    obtain ⟨hstart, hrange⟩ := ih c hc
    exact ⟨Nat.le_trans (Nat.le_add_right _ _) hstart, hrange⟩
  | capture field ty hle hend _ ih =>
    refine List.forall_mem_cons.mpr ⟨⟨Nat.le_refl _, hle, hend⟩, fun c hc => ?_⟩
    obtain ⟨hstart, hrange⟩ := ih c hc
    exact ⟨Nat.le_trans hle hstart, hrange⟩

theorem Placed.starts (h : Placed line segs si pos new) :
    ∀ c ∈ new, c.start = reached segs new pos (c.si - si) := by
  induction h with
  | nil => simp
  | @literal l segs si pos new h ih =>
    intro c hc
    have hsi := h.si_le c hc
    have hsub : c.si - si = c.si - (si + 1) + 1 := by omega
    rw [hsub, reached]
    exact ih c hc
  | @capture field ty segs si pos stop new _ _ h ih =>
    refine List.forall_mem_cons.mpr ⟨by simp [reached], fun c hc => ?_⟩
    have hsi := h.si_le c hc
    have hsub : c.si - si = c.si - (si + 1) + 1 := by omega
    rw [hsub, reached]
    exact ih c hc

theorem Placed.pushed (h : Placed line (segs.drop si) si pos new) : Pushed segs line si pos new where
  captures i := by
    rw [h.captures]
    refine and_congr_right fun hi => ?_
    rw [List.getElem?_drop, Nat.add_sub_cancel' hi]
  increasing := h.increasing
  ranges := h.ranges
  starts := h.starts

end Places

/-- A search that does not panic leaves the stack alone when it fails, and when
it succeeds it has pushed one range for each capture. -/
theorem stack_discipline (segs : List Seg) (si pos : Nat) (caps : List Cap) {found : Bool}
    {caps' : List Cap} (h : matchSegmentsAt C segs line si pos caps = .ok (found, caps')) :
    (found = false → caps' = caps) ∧
      (found = true → ∃ new, caps' = caps ++ new ∧ Pushed segs line si pos new) := by
  rw [matchSegmentsAt] at h
  split at h
  · have hb := matchSegments_balanced h
    cases found with
    | false => exact ⟨fun _ => hb, nofun⟩
    | true =>
      obtain ⟨new, hnew, hplaced⟩ := hb
      exact ⟨nofun, fun _ => ⟨new, hnew, hplaced.pushed⟩⟩
  · cases h

/-- A search from the second segment on, over a range that was there. -/
theorem stack_discipline_port :
    ∃ new, [⟨7, 0, 9⟩, ⟨2, 5, 7⟩] = [⟨7, 0, 9⟩] ++ new ∧
      Pushed [.capture "user".toList .string, .literal " ".toList, .capture "port".toList .uint]
        "root 22".toList 1 4 new := by
  have hrun : matchSegmentsAt noTimestamps
      [.capture "user".toList .string, .literal " ".toList, .capture "port".toList .uint]
      "root 22".toList 1 4 [⟨7, 0, 9⟩] = .ok (true, [⟨7, 0, 9⟩, ⟨2, 5, 7⟩]) := by decide +kernel
  exact (stack_discipline _ 1 4 _ hrun).2 rfl

end TptTelemetry.Compiler.Stack
