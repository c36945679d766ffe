import TptTelemetry.Framing.LineMode

namespace TptTelemetry.Framing.Sender

open TptTelemetry.Lib TptTelemetry.Lib.Utf8
open TptTelemetry.Lib.Incremental hiding push
open TptTelemetry.Framing.Decoder TptTelemetry.Framing.Steps TptTelemetry.Framing.Wire
open TptTelemetry.Framing.LineMode

def written (msgs : List Bytes) : Bytes := msgs.flatMap (· ++ [LF])

/-- A message the sender can send and the receiver can tell from a count. -/
def Sendable (maxFrameLen : Nat) (m : Bytes) : Prop :=
  LF ∉ m ∧ m.getLast? ≠ some CR ∧ m.length < maxFrameLen ∧ NoCount m

instance (maxFrameLen : Nat) (m : Bytes) : Decidable (Sendable maxFrameLen m) :=
  inferInstanceAs (Decidable (_ ∧ _ ∧ _ ∧ _))

def allFrames (r : Outcome TcpDecoder Bytes FrameError) : List Bytes := r.out ++ (flush r.state).1

/-- The auto decoder and the LF decoder give the messages, and the auto
decoder gives each one as soon as its LF has been pushed. -/
def Understood (maxFrameLen : Nat) (msgs chunks : List Bytes) : Prop :=
  (pushAll (.new .auto maxFrameLen) chunks).error = none ∧
  (pushAll (.new .nonTransparent maxFrameLen) chunks).error = none ∧
  allFrames (pushAll (.new .auto maxFrameLen) chunks) =
    allFrames (pushAll (.new .nonTransparent maxFrameLen) chunks) ∧
  allFrames (pushAll (.new .nonTransparent maxFrameLen) chunks) = msgs ∧
  ∀ k, (pushAll (.new .auto maxFrameLen) (chunks.take k)).out =
    msgs.take ((chunks.take k).flatten.count LF)

/-- The last complete line of what has been pushed, or the unfinished line
after it, has a space. -/
def SpaceInSight (pushed : Bytes) : Prop :=
  ∀ l, (Lines.split LF pushed).1.getLast? = some l → SP ∈ l ∨ SP ∈ (Lines.split LF pushed).2

theorem split_written {msgs : List Bytes} (hm : ∀ m ∈ msgs, LF ∉ m) {p : Bytes}
    (hp : p <+: written msgs) :
    ∃ j t, Lines.split LF p = (msgs.take j, t) ∧ p.count LF = j ∧ (t = [] ∨ ∃ m ∈ msgs, t <+: m) := by
  induction msgs generalizing p with
  | nil =>
    have hnil : p = [] := List.prefix_nil.mp hp
    exact ⟨0, [], by simp [hnil, Lines.split], by simp [hnil], Or.inl rfl⟩
  | cons m msgs ih =>
    have hlf : LF ∉ m := hm m (by simp)
    rw [written, List.flatMap_cons] at hp
    obtain ⟨hpre, hne⟩ | ⟨q, rfl, hq⟩ := Lines.prefix_append_cases hp
    · have hpm : p <+: m := (List.prefix_concat_iff.mp hpre).resolve_left hne
      have hlp : LF ∉ p := fun h => hlf (hpm.subset h)
      refine ⟨0, p, ?_, List.count_eq_zero_of_not_mem hlp, Or.inr ⟨m, by simp, hpm⟩⟩
      rw [Lines.split_of_not_mem hlp, List.take_zero]
    · obtain ⟨j, t, hs, hc, ht⟩ := ih (fun x hx => hm x (by simp [hx])) hq
      refine ⟨j + 1, t, ?_, ?_, ?_⟩
      · rw [List.append_assoc, List.singleton_append, Lines.split_append hlf, hs,
          List.take_succ_cons]
      · rw [List.append_assoc, List.count_append, List.count_eq_zero_of_not_mem hlf]
        simp [hc]
      · obtain ht | ⟨x, hx, htx⟩ := ht
        · exact Or.inl ht
        · exact Or.inr ⟨x, by simp [hx], htx⟩

/-- The lines `ls` and the unfinished line `t` have a space where it counts. -/
def InSight (ls : List Bytes) (t : Bytes) : Prop := ∀ l, ls.getLast? = some l → SP ∈ l ∨ SP ∈ t

theorem inSight_cons {l t : Bytes} {ls : List Bytes}
    (hs : SP ∈ l ++ LF :: (ls.flatMap (· ++ [LF]) ++ t)) :
    InSight (l :: ls) t ↔ InSight ls t := by
  cases ls with
  | nil =>
    have hne : SP ≠ LF := by decide
    have h : SP ∈ l ∨ SP ∈ t := by simpa [hne] using hs
    simp [InSight, h]
  | cons m ls => simp [InSight, List.getLast?_cons_cons]

theorem mem_of_inSight {l t : Bytes} {ls : List Bytes} (h : InSight (l :: ls) t) :
    SP ∈ l ++ LF :: (ls.flatMap (· ++ [LF]) ++ t) := by
  obtain ⟨m, hm⟩ : ∃ m, (l :: ls).getLast? = some m := ⟨_, List.getLast?_eq_some_getLast (by simp)⟩
  have hmem : m ∈ l :: ls := List.mem_of_getLast? hm
  obtain hs | hs := h m hm
  · obtain rfl | hmem := List.mem_cons.mp hmem
    · simp [hs]
    · simp only [List.mem_append, List.mem_cons, List.mem_flatMap]
      exact Or.inr (Or.inr (Or.inl ⟨m, hmem, Or.inl hs⟩))
  · simp [hs]

variable {d : TcpDecoder}

/-- A line that is not followed by a space stays in the buffer of the auto
decoder; as long as there is a space ahead, it takes the lines off. -/
theorem drain_auto (ls : List Bytes) {t : Bytes} (hm : d.mode = .auto)
    (hb : d.buf = ls.flatMap (· ++ [LF]) ++ t)
    (hls : ∀ l ∈ ls, LF ∉ l ∧ l.getLast? ≠ some CR ∧ NoCount l)
    (hlf : LF ∉ t) (hlt : t.length < d.maxFrameLen) (hnc : NoCount t) :
    (drain loop d).error = none ∧
      (InSight ls t → drain loop d = ⟨ls, { d with buf := t }, none⟩) ∧
      ((drain loop d).out = ls → InSight ls t) := by
  induction ls generalizing d with
  | nil =>
    have hb' : d.buf = t := by simpa using hb
    have hw : Waits d := by
      by_cases hs : SP ∈ d.buf
      · exact .unterminated (byLine_of_space hm (List.append_nil _).symm hs (hb' ▸ hnc))
          (hb' ▸ hlf) (hb' ▸ hlt)
      · exact .undecided (by simp [hm]) hs
    rw [drain_waits hw, with_buf hb']
    exact ⟨rfl, fun _ => rfl, fun _ => by simp [InSight]⟩
  | cons l ls ih =>
    have hb' : d.buf = l ++ LF :: (ls.flatMap (· ++ [LF]) ++ t) := by simpa using hb
    obtain ⟨hl, hcr, hn⟩ := hls l (by simp)
    by_cases hs : SP ∈ d.buf
    · have hby : ByLine d := byLine_of_space hm (List.append_nil _).symm hs (hb' ▸ noCount_line hn _)
      obtain ⟨he, hok, hout⟩ := ih (d := { d with buf := ls.flatMap (· ++ [LF]) ++ t }) hm rfl
        (fun x hx => hls x (by simp [hx])) hlt
      have hstep := drain_moves (.line hby hb' hl)
      rw [stripCr_of_ne hcr] at hstep
      rw [hstep, inSight_cons (hb' ▸ hs)]
      refine ⟨he, fun h => by rw [hok h]; rfl, fun h => hout ?_⟩
      simpa [Outcome.prepend] using h
    · rw [drain_waits (.undecided (by simp [hm]) hs)]
      refine ⟨rfl, fun h => absurd (mem_of_inSight h) (hb' ▸ hs), fun h => ?_⟩
      cases h

section Connection

variable {maxFrameLen : Nat} {msgs : List Bytes}
variable (hm : ∀ m ∈ msgs, Sendable (TcpDecoder.new .auto maxFrameLen).maxFrameLen m)

include hm in
theorem push_written {p : Bytes} (hp : p <+: written msgs) :
    (push (.new .auto maxFrameLen) p).error = none ∧
      (SpaceInSight p → (push (.new .auto maxFrameLen) p).out = msgs.take (p.count LF) ∧
        (push (.new .auto maxFrameLen) p).state.buf = (Lines.split LF p).2) ∧
      ((push (.new .auto maxFrameLen) p).out = msgs.take (p.count LF) → SpaceInSight p) ∧
      push (.new .nonTransparent maxFrameLen) p = ⟨msgs.take (p.count LF),
        { TcpDecoder.new .nonTransparent maxFrameLen with buf := (Lines.split LF p).2 }, none⟩ := by
  obtain ⟨j, t, hs, rfl, ht⟩ := split_written (fun m hx => (hm m hx).1) hp
  have hls : ∀ l ∈ msgs.take (p.count LF), LF ∉ l ∧ l.getLast? ≠ some CR ∧ NoCount l := by
    intro l hl
    obtain ⟨h1, h2, -, h4⟩ := hm l (List.mem_of_mem_take hl)
    exact ⟨h1, h2, h4⟩
  have htail : LF ∉ t ∧ t.length < (TcpDecoder.new .auto maxFrameLen).maxFrameLen ∧ NoCount t := by
    obtain rfl | ⟨m, hx, hpre⟩ := ht
    · exact ⟨by simp, TcpDecoder.maxFrameLen_pos _, by intro p r h; simp at h⟩
    · obtain ⟨h1, -, h3, h4⟩ := hm m hx
      exact ⟨fun h => h1 (hpre.subset h), Nat.lt_of_le_of_lt hpre.length_le h3,
        noCount_start h4 hpre⟩
  have hjoin : p = (msgs.take (p.count LF)).flatMap (· ++ [LF]) ++ t := by
    have h := Lines.split_join LF p
    rw [hs] at h
    exact h.symm
  have hsight : SpaceInSight p ↔ InSight (msgs.take (p.count LF)) t := by
    rw [SpaceInSight, hs, InSight]
  obtain ⟨he, hok, hout⟩ := drain_auto (d := extend (.new .auto maxFrameLen) p) _ rfl
    hjoin hls htail.1 htail.2.1 htail.2.2
  have hstrip : (msgs.take (p.count LF)).map stripCr = msgs.take (p.count LF) := by
    have h : (msgs.take (p.count LF)).map stripCr = (msgs.take (p.count LF)).map id :=
      List.map_congr_left fun l hl => stripCr_of_ne (hls l hl).2.1
    rw [h, List.map_id]
  refine ⟨he, fun h => ?_, fun h => hsight.mpr (hout h), ?_⟩
  · have hd : push (.new .auto maxFrameLen) p = _ := hok (hsight.mp h)
    rw [hd, hs]
    exact ⟨rfl, rfl⟩
  · have hd := drain_lines_ok (d := extend (.new .nonTransparent maxFrameLen) p) rfl
      (by
        change (Lines.split LF p).2.length < _
        rw [hs]
        exact htail.2.1)
    have hbuf : (extend (.new .nonTransparent maxFrameLen) p).buf = p := rfl
    rw [hbuf, hs, hstrip] at hd
    rw [hs]
    exact hd

variable {chunks : List Bytes} (hc : chunks.flatten = written msgs)

include hm hc in
theorem pushAll_written (k : Nat) :
    pushAll (.new .auto maxFrameLen) (chunks.take k) =
      push (.new .auto maxFrameLen) (chunks.take k).flatten ∧
    pushAll (.new .nonTransparent maxFrameLen) (chunks.take k) =
      push (.new .nonTransparent maxFrameLen) (chunks.take k).flatten ∧
    (chunks.take k).flatten <+: written msgs := by
  have hpre : (chunks.take k).flatten <+: written msgs := by
    rw [← hc]
    exact ⟨(chunks.drop k).flatten, by rw [← List.flatten_append, List.take_append_drop]⟩
  refine ⟨?_, ?_, hpre⟩
  · apply run_eq_push_of_prefixes (new_waits _ _)
    intro p hp
    exact (push_written hm (hp.trans hpre)).1
  · apply run_eq_push_of_prefixes (new_waits _ _)
    intro p hp
    exact congrArg Outcome.error (push_written hm (hp.trans hpre)).2.2.2

end Connection

/-- The auto decoder understands the repository's sender on exactly those
cuttings after each push of which a space is in sight. -/
theorem understood_iff (maxFrameLen : Nat) (msgs chunks : List Bytes)
    (hm : ∀ m ∈ msgs, Sendable (TcpDecoder.new .auto maxFrameLen).maxFrameLen m)
    (hc : chunks.flatten = written msgs) :
    Understood maxFrameLen msgs chunks ↔ ∀ k, SpaceInSight (chunks.take k).flatten := by
  constructor
  · rintro ⟨-, -, -, -, h⟩ k
    obtain ⟨hauto, -, hpre⟩ := pushAll_written hm hc k
    obtain ⟨-, -, hsight, -⟩ := push_written hm hpre
    apply hsight
    rw [← hauto]
    exact h k
  · intro h
    have hall : chunks.take chunks.length = chunks := List.take_length
    obtain ⟨hauto, hline, hpre⟩ := pushAll_written hm hc chunks.length
    obtain ⟨he, hok, -, hnt⟩ := push_written hm hpre
    obtain ⟨hout, hbuf⟩ := hok (h _)
    rw [hall] at hauto hline he hout hbuf hnt
    have hsplit : Lines.split LF chunks.flatten = (msgs, []) := by
      rw [hc, written, ← List.append_nil (msgs.flatMap _)]
      exact Lines.split_flatMap (fun m hx => (hm m hx).1) (by simp)
    have hcount : msgs.take (chunks.flatten.count LF) = msgs := by
      obtain ⟨j, t, hs, rfl, -⟩ := split_written (fun m hx => (hm m hx).1) (hall ▸ hpre)
      rw [hsplit] at hs
      exact (Prod.mk.inj hs).1.symm
    rw [hsplit] at hbuf hnt
    rw [hcount] at hout hnt
    have hfa : allFrames (pushAll (.new .auto maxFrameLen) chunks) = msgs := by
      rw [allFrames, hauto, flush, if_pos hbuf, hout, List.append_nil]
    have hfl : allFrames (pushAll (.new .nonTransparent maxFrameLen) chunks) = msgs := by
      rw [allFrames, hline, hnt, flush, if_pos rfl, List.append_nil]
    refine ⟨by rw [hauto, he], by rw [hline, hnt], hfa.trans hfl.symm, hfl, ?_⟩
    intro k
    obtain ⟨hautok, -, hprek⟩ := pushAll_written hm hc k
    obtain ⟨-, hokk, -, -⟩ := push_written hm hprek
    rw [hautok]
    exact (hokk (h k)).1

theorem understood_words :
    Understood 16 [encode "up".toList, encode "a b".toList] [encode "up\na b\n".toList] := by
  apply (understood_iff 16 [encode "up".toList, encode "a b".toList] [encode "up\na b\n".toList]
    (by decide +kernel) (by decide +kernel)).mpr
  intro k l hl
  cases k with
  | zero => cases hl
  | succ k =>
    have hlast : (Lines.split LF (encode "up\na b\n".toList ++ [])).1.getLast? =
        some (encode "a b".toList) := by decide +kernel
    simp only [List.take_succ_cons, List.take_nil, List.flatten_cons, List.flatten_nil] at hl
    cases hlast.symm.trans hl
    exact Or.inl (by decide +kernel)

/-- A single word is not understood: the auto decoder holds it back and then
flushes it together with its LF. -/
theorem not_understood :
    (∀ m ∈ [encode "up".toList], Sendable (TcpDecoder.new .auto 16).maxFrameLen m) ∧
      [encode "up\n".toList].flatten = written [encode "up".toList] ∧
      ¬ Understood 16 [encode "up".toList] [encode "up\n".toList] := by
  refine ⟨by decide +kernel, by decide +kernel, ?_⟩
  rintro ⟨-, -, h, -, -⟩
  exact absurd h (by decide +kernel)

end TptTelemetry.Framing.Sender
